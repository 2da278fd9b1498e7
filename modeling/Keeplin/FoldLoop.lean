/-
The loop that folds a line, on the offsets of the whole line.  Every turn cuts behind the
last cut and at a character boundary, so the loop ends and its slices are taken; what it
writes unfolds to the lines.
-/
import Keeplin.ContentProperties

namespace Keeplin

namespace ContentLines

/-- Going back while the offset is within the line and within a character.  The start of a
line is at a boundary. -/
def backToBoundary (line : List Char) : Nat → Nat
  | 0 => 0
  | offset + 1 =>
      if offset + 1 < octets line ∧ isCharBoundary line (offset + 1) = false then
        backToBoundary line offset
      else offset + 1

/-- The characters between two offsets, if both are at boundaries. -/
def slice (line : List Char) (start stop : Nat) : Option (List Char) :=
  if start ≤ stop ∧ isCharBoundary line start = true ∧ isCharBoundary line stop = true then
    some (splitAtOctet (splitAtOctet line stop).1 start).2
  else none

theorem isCharBoundary_zero (text : List Char) : isCharBoundary text 0 = true := by
  cases text <;> rfl

theorem isCharBoundary_append (front rest : List Char) (offset : Nat) :
    isCharBoundary (front ++ rest) (octets front + offset) = isCharBoundary rest offset := by
  induction front with
  | nil => rw [List.nil_append, octets_nil, Nat.zero_add]
  | cons c front ih =>
      obtain ⟨size, hsize⟩ := Nat.exists_eq_add_of_lt c.utf8Size_pos
      have hoffset : octets (c :: front) + offset = size + octets front + offset + 1 := by
        rw [octets_cons]
        omega
      rw [List.cons_append, hoffset, isCharBoundary, ← hoffset, octets_cons]
      have hback : c.utf8Size + octets front + offset - c.utf8Size = octets front + offset := by
        omega
      rw [hback, ih, Bool.and_eq_right_iff_imp]
      intro _
      rw [decide_eq_true_eq]
      omega

/-- Where a front ends, a character starts. -/
theorem isCharBoundary_front (front rest : List Char) :
    isCharBoundary (front ++ rest) (octets front) = true := by
  have hstart := isCharBoundary_append front rest 0
  rw [Nat.add_zero] at hstart
  rw [hstart]
  exact isCharBoundary_zero rest

/-- A text is cut where a front of it ends. -/
theorem splitAtOctet_front (front rest : List Char) :
    splitAtOctet (front ++ rest) (octets front) = (front, rest) := by
  induction front with
  | nil =>
      cases rest with
      | nil => rfl
      | cons c rest =>
          have hpos := c.utf8Size_pos
          rw [List.nil_append, octets_nil, splitAtOctet, if_neg (by omega)]
  | cons c front ih =>
      rw [List.cons_append, octets_cons, splitAtOctet, if_pos (Nat.le_add_right _ _),
        Nat.add_sub_cancel_left, ih]

theorem slice_front (front piece back : List Char) :
    slice (front ++ (piece ++ back)) (octets front) (octets front + octets piece) = some piece := by
  have hstop := isCharBoundary_front (front ++ piece) back
  have hcut := splitAtOctet_front (front ++ piece) back
  rw [octets_append, List.append_assoc] at hstop hcut
  rw [slice, if_pos ⟨Nat.le_add_right _ _, isCharBoundary_front front _, hstop⟩, hcut,
    splitAtOctet_front]

/-- Going back from an offset stops at the last boundary up to it. -/
theorem backToBoundary_append {front rest : List Char} {offset : Nat}
    (hoffset : offset ≤ octets rest) :
    backToBoundary (front ++ rest) (octets front + offset) =
      octets front + floorCharBoundary rest offset := by
  induction offset with
  | zero =>
      rw [Nat.add_zero, floorCharBoundary, Nat.add_zero]
      have hstart := isCharBoundary_front front rest
      cases hfront : octets front with
      | zero => rfl
      | succ size =>
          rw [hfront] at hstart
          rw [backToBoundary, if_neg]
          rintro ⟨-, hwithin⟩
          rw [hstart] at hwithin
          contradiction
  | succ offset ih =>
      have hboundary := isCharBoundary_append front rest (offset + 1)
      rw [← Nat.add_assoc] at hboundary ⊢
      rw [backToBoundary, floorCharBoundary, hboundary, octets_append]
      by_cases hrest : isCharBoundary rest (offset + 1) = true
      · rw [hrest, if_neg (by simp), if_pos rfl, Nat.add_assoc]
      · -- the end of the text is a boundary, so the offset is before it
        have hlt : offset + 1 < octets rest := by
          refine Nat.lt_of_le_of_ne hoffset fun hend => hrest ?_
          have hlast := isCharBoundary_front rest []
          rw [List.append_nil] at hlast
          rw [hend]
          exact hlast
        rw [if_neg hrest, if_pos ⟨by omega, by simpa using hrest⟩]
        exact ih (Nat.le_of_succ_le hoffset)

end ContentLines

namespace Interop

open ContentLines

/-- Where a turn ends its piece. -/
def cutAt (line : Text) (start : Nat) (first : Bool) : Nat :=
  let budget := if first then lineLimit else lineLimit - 1
  backToBoundary line (min (start + budget) (octets line))

def foldLoop (line : Text) : Nat → Nat → Bool → Text → Option Text
  | 0, start, _, out => if start < octets line then none else some out
  | fuel + 1, start, first, out =>
      if start < octets line then
        let stop := cutAt line start first
        (slice line start stop).bind fun piece =>
          foldLoop line fuel stop false
            (out ++ ((if first then [] else [' ']) ++ (piece ++ endLine)))
      else some out

/-- Append the physical lines of a line, with no more turns than the line has octets. -/
def foldLineInto (out line : Text) : Option Text :=
  if octets line ≤ lineLimit then some (out ++ (line ++ endLine))
  else foldLoop line (octets line) 0 true out

def foldLines (lines : List Text) : Option Text := lines.foldlM foldLineInto []

/-- What the turns of the loop start from. -/
inductive Turn (line : Text) : Nat → Bool → Prop where
  | first : Turn line 0 true
  | next {start : Nat} {first : Bool} (hturn : Turn line start first)
      (hlt : start < octets line) : Turn line (cutAt line start first) false

/-- A turn that is not the last cuts at a boundary behind its start. -/
structure Advances (line : Text) (start : Nat) (first : Bool) : Prop where
  boundary : isCharBoundary line (cutAt line start first) = true
  lt : start < cutAt line start first
  le : cutAt line start first ≤ octets line

theorem budget_ge (first : Bool) : 4 ≤ if first then lineLimit else lineLimit - 1 := by
  cases first <;> decide

theorem cutAt_append (front rest : Text) (first : Bool) :
    cutAt (front ++ rest) (octets front) first =
      octets front + floorCharBoundary rest
        (min (if first then lineLimit else lineLimit - 1) (octets rest)) := by
  have hmin : min (octets front + if first then lineLimit else lineLimit - 1)
      (octets (front ++ rest)) =
      octets front + min (if first then lineLimit else lineLimit - 1) (octets rest) := by
    rw [octets_append, Nat.add_min_add_left]
  rw [cutAt, hmin]
  exact backToBoundary_append (Nat.min_le_right _ _)

/-- The piece of a turn, and what is left behind it. -/
theorem exists_piece (front : Text) {rest : Text} (hne : rest ≠ []) (first : Bool) :
    ∃ piece back, rest = piece ++ back ∧ piece ≠ [] ∧
      splitAtOctet rest (floorCharBoundary rest
        (min (if first then lineLimit else lineLimit - 1) (octets rest))) = (piece, back) ∧
      cutAt (front ++ rest) (octets front) first = octets front + octets piece := by
  have hoctets := octets_splitAtOctet (isCharBoundary_floorCharBoundary rest
    (min (if first then lineLimit else lineLimit - 1) (octets rest)))
  have hpos := floorCharBoundary_pos (budget_ge first) hne
  refine ⟨_, _, (splitAtOctet_append rest _).symm, ?_, rfl, ?_⟩
  · intro hnil
    rw [hnil] at hoctets
    exact absurd hoctets (Nat.ne_of_lt hpos)
  · rw [cutAt_append, hoctets]

/-- Every turn starts where a front of the line ends. -/
theorem Turn.front {line : Text} {start : Nat} {first : Bool} (hturn : Turn line start first) :
    ∃ front rest, line = front ++ rest ∧ octets front = start := by
  induction hturn with
  | first => exact ⟨[], line, rfl, rfl⟩
  | @next start first hturn hlt ih =>
      obtain ⟨front, rest, rfl, rfl⟩ := ih
      have hne : rest ≠ [] := by
        rintro rfl
        rw [List.append_nil] at hlt
        exact Nat.lt_irrefl _ hlt
      obtain ⟨piece, back, rfl, -, -, hcut⟩ := exists_piece front hne first
      exact ⟨front ++ piece, back, (List.append_assoc front piece back).symm,
        by rw [hcut, octets_append]⟩

theorem Turn.advances {line : Text} {start : Nat} {first : Bool} (hturn : Turn line start first)
    (hlt : start < octets line) : Advances line start first := by
  obtain ⟨front, rest, rfl, rfl⟩ := hturn.front
  have hne : rest ≠ [] := by
    rintro rfl
    rw [List.append_nil] at hlt
    exact Nat.lt_irrefl _ hlt
  obtain ⟨piece, back, rfl, hpiece, -, hcut⟩ := exists_piece front hne first
  have hpos := octets_pos hpiece
  constructor
  · rw [hcut, ← octets_append, ← List.append_assoc]
    exact isCharBoundary_front _ back
  · omega
  · rw [hcut, octets_append, octets_append]
    omega

/-- The loop writes the pieces of what is left of the line. -/
theorem foldLoop_front {front rest : Text} {fuel : Nat} (hfuel : octets rest ≤ fuel)
    (first : Bool) (out : Text) :
    foldLoop (front ++ rest) fuel (octets front) first out =
      some (out ++ ended (foldFrom lineLimit fuel first rest)) := by
  induction fuel generalizing front rest first out with
  | zero =>
      have hnil : rest = [] := by
        by_contra hne
        exact absurd (octets_pos hne) (by omega)
      rw [hnil, List.append_nil, foldLoop, if_neg (Nat.lt_irrefl _), foldFrom]
      exact congrArg some (List.append_nil out).symm
  | succ fuel ih =>
      by_cases hne : rest = []
      · rw [hne, List.append_nil, foldLoop, if_neg (Nat.lt_irrefl _), foldFrom_nil]
        exact congrArg some (List.append_nil out).symm
      · obtain ⟨piece, back, rfl, hpiece, hsplit, hcut⟩ := exists_piece front hne first
        have hpos := octets_pos hne
        have hlt : octets front < octets (front ++ (piece ++ back)) := by
          rw [octets_append]
          omega
        rw [foldLoop, if_pos hlt]
        simp only [hcut, slice_front, Option.bind_some]
        rw [← octets_append, ← List.append_assoc front, ih (octets_back_le rfl hpiece hfuel),
          foldFrom, if_neg hne]
        simp only [hsplit]
        cases first <;> simp [ended]

/-- A line is written as its physical lines. -/
theorem foldLineInto_eq (out line : Text) :
    foldLineInto out line = some (out ++ foldLine line) := by
  rw [foldLineInto, foldLine, ContentLines.foldLine]
  split
  · simp [ended]
  · exact @foldLoop_front [] line _ (Nat.le_refl _) true out

theorem foldLines_eq (lines : List Text) : foldLines lines = some (lines.flatMap foldLine) := by
  have hfold : ∀ out : Text,
      lines.foldlM foldLineInto out = some (out ++ lines.flatMap foldLine) := by
    induction lines with
    | nil => exact fun out => congrArg some (List.append_nil out).symm
    | cons line lines ih =>
        intro out
        rw [List.foldlM_cons, foldLineInto_eq, Option.bind_eq_bind, Option.bind_some, ih,
          List.append_assoc]
        rfl
  exact hfold []

/-- A line without breaks that does not start with a blank. -/
structure IsLine (line : Text) : Prop where
  not_feed : '\n' ∉ line
  not_return : '\r' ∉ line
  starts : ∀ c ∈ line.head?, c ≠ ' ' ∧ c ≠ '\t'

theorem IsLine.isContentLine {line : Text} (hline : IsLine line) : IsContentLine line where
  not_feed := hline.not_feed
  starts c hc := by
    obtain ⟨hspace, htab⟩ := hline.starts c hc
    simp [isFold, hspace, htab]

/-- No physical line of folded lines has more octets than the limit. -/
theorem octets_physical_le {lines : List Text} (hlines : ∀ line ∈ lines, '\n' ∉ line) :
    ∀ raw ∈ (lines.flatMap foldLine).splitOn '\n', octets (stripReturn raw) ≤ lineLimit := by
  intro raw hraw
  rw [flatMap_foldLine, splitOn_ended (feed_not_mem (by decide) hlines)] at hraw
  rcases List.mem_append.mp hraw with hmem | hlast
  · obtain ⟨physical, hphysical, rfl⟩ := List.mem_map.mp hmem
    obtain ⟨line, -, hline⟩ := List.mem_flatMap.mp hphysical
    rw [stripReturn_append]
    exact (mem_of_mem_foldLine (by decide) hline).1
  · rw [List.mem_singleton.mp hlast]
    exact Nat.zero_le _

/-- Folding inverts.  What is written of lines without breaks unfolds to them, no physical line
is longer than the limit, and every turn of the loop ends at a character boundary behind its
start. -/
theorem folding_inverts :
    (∀ lines : List Text, (∀ line ∈ lines, IsLine line) →
      ∃ text, foldLines lines = some text ∧ unfold text = lines ∧
        ∀ raw ∈ text.splitOn '\n', octets (stripReturn raw) ≤ lineLimit) ∧
    (∀ (line : Text) (start : Nat) (first : Bool), Turn line start first →
      start < octets line → Advances line start first) := by
  refine ⟨?_, ?_⟩
  · intro lines hlines
    refine ⟨lines.flatMap foldLine, foldLines_eq lines, ?_, ?_⟩
    · exact unfold_foldLine fun line hline => (hlines line hline).isContentLine
    · exact octets_physical_le fun line hline => (hlines line hline).not_feed
  · intro line start first hturn hlt
    exact hturn.advances hlt

namespace FoldWitness

/-- A line of two octets a character, whose limit falls within one. -/
def accents : Text := List.replicate 40 'é'

theorem isLine_accents : ∀ line ∈ [accents, []], IsLine line := by
  intro line hline
  simp only [List.mem_cons, List.not_mem_nil, or_false] at hline
  rcases hline with rfl | rfl
  · refine ⟨by decide, by decide, ?_⟩
    rintro c ⟨⟩
    decide
  · refine ⟨by decide, by decide, ?_⟩
    rintro c ⟨⟩

theorem accents_folded :
    (∃ text, foldLines [accents, []] = some text ∧ unfold text = [accents, []] ∧
      ∀ raw ∈ text.splitOn '\n', octets (stripReturn raw) ≤ lineLimit) ∧
    Advances accents 0 true := by
  obtain ⟨hlines, hturns⟩ := folding_inverts
  exact ⟨hlines _ isLine_accents, hturns accents 0 true .first (by decide)⟩

/-- The cut is behind 37 characters, for the limit is within the next. -/
example : cutAt accents 0 true = 74 := by decide

end FoldWitness

end Interop

end Keeplin
