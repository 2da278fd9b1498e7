/-
Content lines of calendars and cards.  A line of too many octets is folded: it is cut
at character boundaries and every piece after the first is written behind a space.
Unfolding the physical lines gives the content lines back.
-/
import Mathlib.Data.List.Basic

namespace Keeplin

namespace ContentLines

def octets : List Char → Nat
  | [] => 0
  | c :: rest => c.utf8Size + octets rest

/-- An offset in octets at which a character starts, or the text ends. -/
def isCharBoundary : List Char → Nat → Bool
  | _, 0 => true
  | [], _ + 1 => false
  | c :: rest, offset + 1 =>
      c.utf8Size ≤ offset + 1 && isCharBoundary rest (offset + 1 - c.utf8Size)

/-- Going back to a boundary, octet by octet. -/
def floorCharBoundary (text : List Char) : Nat → Nat
  | 0 => 0
  | offset + 1 =>
      if isCharBoundary text (offset + 1) then offset + 1 else floorCharBoundary text offset

def splitAtOctet : List Char → Nat → List Char × List Char
  | [], _ => ([], [])
  | c :: rest, offset =>
      if c.utf8Size ≤ offset then
        let cut := splitAtOctet rest (offset - c.utf8Size)
        (c :: cut.1, cut.2)
      else ([], c :: rest)

@[simp] theorem octets_nil : octets [] = 0 := rfl

@[simp] theorem octets_cons (c : Char) (rest : List Char) :
    octets (c :: rest) = c.utf8Size + octets rest := rfl

@[simp] theorem octets_append (front back : List Char) :
    octets (front ++ back) = octets front + octets back := by
  induction front with
  | nil => exact (Nat.zero_add _).symm
  | cons c front ih => rw [List.cons_append, octets_cons, octets_cons, ih, Nat.add_assoc]

theorem octets_pos {text : List Char} (hne : text ≠ []) : 0 < octets text := by
  obtain ⟨c, rest, rfl⟩ := List.exists_cons_of_ne_nil hne
  exact Nat.add_pos_left c.utf8Size_pos _

theorem isCharBoundary_of_utf8Size (c : Char) (rest : List Char) :
    isCharBoundary (c :: rest) c.utf8Size = true := by
  obtain ⟨size, hsize⟩ := Nat.exists_eq_add_of_lt c.utf8Size_pos
  rw [Nat.zero_add] at hsize
  rw [hsize, isCharBoundary, ← hsize, Nat.sub_self]
  simp [isCharBoundary]

theorem floorCharBoundary_le (text : List Char) (offset : Nat) :
    floorCharBoundary text offset ≤ offset := by
  induction offset with
  | zero => exact Nat.le_refl 0
  | succ offset ih =>
      rw [floorCharBoundary]
      split
      · exact Nat.le_refl _
      · exact Nat.le_succ_of_le ih

theorem isCharBoundary_floorCharBoundary (text : List Char) (offset : Nat) :
    isCharBoundary text (floorCharBoundary text offset) = true := by
  induction offset with
  | zero => simp [floorCharBoundary, isCharBoundary]
  | succ offset ih =>
      rw [floorCharBoundary]
      split
      · assumption
      · exact ih

/-- No boundary up to the offset is passed over. -/
theorem le_floorCharBoundary {text : List Char} {offset boundary : Nat} (hle : boundary ≤ offset)
    (hboundary : isCharBoundary text boundary = true) :
    boundary ≤ floorCharBoundary text offset := by
  induction offset with
  | zero => exact hle
  | succ offset ih =>
      rw [floorCharBoundary]
      split
      · exact hle
      · next hnot =>
          refine ih (Nat.lt_succ_iff.mp (Nat.lt_of_le_of_ne hle ?_))
          rintro rfl
          exact hnot hboundary

theorem splitAtOctet_append (text : List Char) (offset : Nat) :
    (splitAtOctet text offset).1 ++ (splitAtOctet text offset).2 = text := by
  induction text generalizing offset with
  | nil => rfl
  | cons c rest ih =>
      rw [splitAtOctet]
      split
      · exact congrArg (c :: ·) (ih _)
      · rfl

/-- A cut at a boundary takes that many octets. -/
theorem octets_splitAtOctet {text : List Char} {offset : Nat}
    (hboundary : isCharBoundary text offset = true) :
    octets (splitAtOctet text offset).1 = offset := by
  induction text generalizing offset with
  | nil =>
      cases offset with
      | zero => rfl
      | succ offset => contradiction
  | cons c rest ih =>
      cases offset with
      | zero =>
          have hpos := c.utf8Size_pos
          rw [splitAtOctet, if_neg (by omega), octets_nil]
      | succ offset =>
          rw [isCharBoundary, Bool.and_eq_true, decide_eq_true_iff] at hboundary
          obtain ⟨hsize, hrest⟩ := hboundary
          rw [splitAtOctet, if_pos hsize, octets_cons, ih hrest]
          omega

/-- The physical lines of what is left of a line. -/
def foldFrom (limit : Nat) : Nat → Bool → List Char → List (List Char)
  | 0, _, _ => []
  | fuel + 1, first, rest =>
      if rest = [] then []
      else
        let budget := if first then limit else limit - 1
        let cut := splitAtOctet rest (floorCharBoundary rest (min budget (octets rest)))
        (if first then cut.1 else ' ' :: cut.1) :: foldFrom limit fuel false cut.2

/-- The physical lines of a line.  Every turn takes an octet at least. -/
def foldLine (limit : Nat) (line : List Char) : List (List Char) :=
  if octets line ≤ limit then [line] else foldFrom limit (octets line) true line

def endLine : List Char := ['\r', '\n']

/-- The text in which every physical line is ended. -/
def ended (lines : List (List Char)) : List Char := lines.flatMap (· ++ endLine)

def stripReturn (line : List Char) : List Char :=
  if line.getLast? = some '\r' then line.dropLast else line

def isFold (c : Char) : Bool := c = ' ' || c = '\t'

/-- A line that starts with a space goes on with the one before it. -/
def joinLine (lines : List (List Char)) (line : List Char) : List (List Char) :=
  match line with
  | [] => lines ++ [[]]
  | c :: rest =>
      if isFold c then
        match lines.getLast? with
        | some last => lines.dropLast ++ [last ++ rest]
        | none => lines ++ [c :: rest]
      else lines ++ [c :: rest]

def unfold (input : List Char) : List (List Char) :=
  let lines := (input.splitOn '\n').foldl (fun lines raw => joinLine lines (stripReturn raw)) []
  if lines.getLast? = some [] then lines.dropLast else lines

section

variable {limit : Nat}

/-- Every turn of the loop cuts at a boundary behind the start. -/
theorem floorCharBoundary_pos {rest : List Char} {budget : Nat} (hbudget : 4 ≤ budget)
    (hne : rest ≠ []) : 0 < floorCharBoundary rest (min budget (octets rest)) := by
  obtain ⟨c, more, rfl⟩ := List.exists_cons_of_ne_nil hne
  have hfour := c.utf8Size_le_four
  have hle : c.utf8Size ≤ min budget (octets (c :: more)) := by
    rw [octets_cons]
    omega
  exact Nat.lt_of_lt_of_le c.utf8Size_pos
    (le_floorCharBoundary hle (isCharBoundary_of_utf8Size c more))

theorem foldFrom_step (hlimit : 5 ≤ limit) (fuel : Nat) (first : Bool) {rest : List Char}
    (hne : rest ≠ []) :
    ∃ piece back, piece ++ back = rest ∧ piece ≠ [] ∧
      octets piece ≤ (if first then limit else limit - 1) ∧
      foldFrom limit (fuel + 1) first rest =
        (if first then piece else ' ' :: piece) :: foldFrom limit fuel false back := by
  let budget := if first then limit else limit - 1
  let cutAt := floorCharBoundary rest (min budget (octets rest))
  have hbudget : 4 ≤ budget := by
    cases first <;> simp only [budget] <;> simp <;> omega
  have hoctets : octets (splitAtOctet rest cutAt).1 = cutAt :=
    octets_splitAtOctet (isCharBoundary_floorCharBoundary _ _)
  refine ⟨(splitAtOctet rest cutAt).1, (splitAtOctet rest cutAt).2, splitAtOctet_append rest cutAt,
    ?_, ?_, by rw [foldFrom, if_neg hne]⟩
  · intro hnil
    have hpos := floorCharBoundary_pos hbudget hne
    rw [hnil] at hoctets
    exact absurd hoctets (Nat.ne_of_lt hpos)
  · rw [hoctets]
    exact Nat.le_trans (floorCharBoundary_le _ _) (Nat.min_le_left _ _)

/-- What is left of a line gets shorter with every piece. -/
theorem octets_back_le {piece back rest : List Char} {fuel : Nat} (happend : piece ++ back = rest)
    (hpiece : piece ≠ []) (hfuel : octets rest ≤ fuel + 1) : octets back ≤ fuel := by
  have hpos := octets_pos hpiece
  rw [← happend, octets_append] at hfuel
  omega

theorem foldFrom_nil (fuel : Nat) (first : Bool) : foldFrom limit fuel first [] = [] := by
  cases fuel with
  | zero => rfl
  | succ fuel => rw [foldFrom, if_pos rfl]

/-- The pieces go on with the line they are read after. -/
theorem foldl_joinLine_foldFrom (hlimit : 5 ≤ limit) {fuel : Nat} {rest : List Char}
    (hfuel : octets rest ≤ fuel) (lines : List (List Char)) (start : List Char) :
    (foldFrom limit fuel false rest).foldl joinLine (lines ++ [start]) =
      lines ++ [start ++ rest] := by
  induction fuel generalizing rest start with
  | zero =>
      have hnil : rest = [] := by
        by_contra hne
        exact absurd (octets_pos hne) (by omega)
      rw [hnil, foldFrom_nil, List.append_nil, List.foldl_nil]
  | succ fuel ih =>
      by_cases hne : rest = []
      · rw [hne, foldFrom_nil, List.append_nil, List.foldl_nil]
      · obtain ⟨piece, back, happend, hpiece, -, hstep⟩ := foldFrom_step hlimit fuel false hne
        have hjoin : joinLine (lines ++ [start]) (' ' :: piece) = lines ++ [start ++ piece] := by
          simp [joinLine, isFold]
        rw [hstep, if_neg (by decide), List.foldl_cons, hjoin,
          ih (octets_back_le happend hpiece hfuel), List.append_assoc, happend]

theorem mem_of_mem_foldFrom (hlimit : 5 ≤ limit) {fuel : Nat} {first : Bool}
    {rest physical : List Char} (hmem : physical ∈ foldFrom limit fuel first rest) :
    octets physical ≤ limit ∧ ∀ c ∈ physical, c = ' ' ∨ c ∈ rest := by
  induction fuel generalizing first rest with
  | zero => exact absurd hmem List.not_mem_nil
  | succ fuel ih =>
      by_cases hne : rest = []
      · rw [hne, foldFrom_nil] at hmem
        exact absurd hmem List.not_mem_nil
      · obtain ⟨piece, back, happend, -, hoctets, hstep⟩ := foldFrom_step hlimit fuel first hne
        rw [hstep] at hmem
        rcases List.mem_cons.mp hmem with rfl | hback
        · have hpiece : ∀ c ∈ piece, c ∈ rest := fun c hc => happend ▸ List.mem_append_left back hc
          cases first with
          | true => exact ⟨hoctets, fun c hc => .inr (hpiece c hc)⟩
          | false =>
              have hspace : Char.utf8Size ' ' = 1 := by decide
              simp only [Bool.false_eq_true, if_false] at hoctets ⊢
              refine ⟨by rw [octets_cons, hspace]; omega, fun c hc => ?_⟩
              rcases List.mem_cons.mp hc with hblank | hin
              · exact .inl hblank
              · exact .inr (hpiece c hin)
        · obtain ⟨hle, hchars⟩ := ih hback
          refine ⟨hle, fun c hc => ?_⟩
          rcases hchars c hc with hblank | hin
          · exact .inl hblank
          · exact .inr (happend ▸ List.mem_append_right piece hin)

/-- No physical line is longer than the limit, and none has a character of its own but the space. -/
theorem mem_of_mem_foldLine (hlimit : 5 ≤ limit) {line physical : List Char}
    (hmem : physical ∈ foldLine limit line) :
    octets physical ≤ limit ∧ ∀ c ∈ physical, c = ' ' ∨ c ∈ line := by
  rw [foldLine] at hmem
  split at hmem
  · next hle =>
      rw [List.mem_singleton.mp hmem]
      exact ⟨hle, fun c hc => .inr hc⟩
  · exact mem_of_mem_foldFrom hlimit hmem

end

/-- A line that can be told from the physical lines around it. -/
structure IsContentLine (line : List Char) : Prop where
  not_feed : '\n' ∉ line
  starts : ∀ c ∈ line.head?, isFold c = false

section

variable {limit : Nat}

theorem joinLine_start {line : List Char} (hstarts : ∀ c ∈ line.head?, isFold c = false)
    (lines : List (List Char)) : joinLine lines line = lines ++ [line] := by
  cases line with
  | nil => rfl
  | cons c rest =>
      have hfold : isFold c = false := hstarts c rfl
      simp [joinLine, hfold]

theorem foldl_joinLine_foldLine (hlimit : 5 ≤ limit) {line : List Char}
    (hstarts : ∀ c ∈ line.head?, isFold c = false) (lines : List (List Char)) :
    (foldLine limit line).foldl joinLine lines = lines ++ [line] := by
  rw [foldLine]
  split
  · exact joinLine_start hstarts lines
  · next hlong =>
      have hne : line ≠ [] := by
        rintro rfl
        exact hlong (Nat.zero_le limit)
      obtain ⟨fuel, hfuel⟩ := Nat.exists_eq_add_one_of_ne_zero (Nat.ne_of_gt (octets_pos hne))
      obtain ⟨piece, back, happend, hpiece, -, hstep⟩ := foldFrom_step hlimit fuel true hne
      have hhead : ∀ c ∈ piece.head?, isFold c = false := by
        intro c hc
        refine hstarts c ?_
        rw [← happend, List.head?_append_of_ne_nil piece hpiece]
        exact hc
      rw [hfuel, hstep, if_pos rfl, List.foldl_cons, joinLine_start hhead,
        foldl_joinLine_foldFrom hlimit (octets_back_le happend hpiece (Nat.le_of_eq hfuel)),
        happend]

theorem splitOn_ended {lines : List (List Char)} (hfeed : ∀ line ∈ lines, '\n' ∉ line) :
    (ended lines).splitOn '\n' = lines.map (· ++ ['\r']) ++ [[]] := by
  induction lines with
  | nil => rfl
  | cons line lines ih =>
      have hline : '\n' ∉ line ++ ['\r'] := by
        rw [List.mem_append, not_or]
        exact ⟨hfeed line List.mem_cons_self, by decide⟩
      have hended : ended (line :: lines) = (line ++ ['\r']) ++ '\n' :: ended lines := by
        simp [ended, endLine]
      rw [hended, List.splitOn_append_cons_self, List.splitOn_eq_singleton hline,
        ih fun other hmem => hfeed other (List.mem_cons_of_mem line hmem)]
      rfl

@[simp] theorem stripReturn_append (line : List Char) : stripReturn (line ++ ['\r']) = line := by
  simp [stripReturn]

theorem feed_not_mem (hlimit : 5 ≤ limit) {lines : List (List Char)}
    (hlines : ∀ line ∈ lines, '\n' ∉ line) :
    ∀ physical ∈ lines.flatMap (foldLine limit), '\n' ∉ physical := by
  intro physical hmem hin
  obtain ⟨line, hline, hphysical⟩ := List.mem_flatMap.mp hmem
  rcases (mem_of_mem_foldLine hlimit hphysical).2 _ hin with hblank | hfeed
  · exact absurd hblank (by decide)
  · exact hlines line hline hfeed

/-- The physical lines of content lines, unfolded, are the content lines. -/
theorem unfold_ended (hlimit : 5 ≤ limit) {lines : List (List Char)}
    (hlines : ∀ line ∈ lines, IsContentLine line) :
    unfold (ended (lines.flatMap (foldLine limit))) = lines := by
  have hfeed := feed_not_mem hlimit fun line hline => (hlines line hline).not_feed
  have hjoin : ∀ start : List (List Char),
      (lines.flatMap (foldLine limit)).foldl joinLine start = start ++ lines := by
    clear hfeed
    induction lines with
    | nil => exact fun start => (List.append_nil start).symm
    | cons line lines ih =>
        intro start
        rw [List.flatMap_cons, List.foldl_append,
          foldl_joinLine_foldLine hlimit (hlines line List.mem_cons_self).starts,
          ih fun other hmem => hlines other (List.mem_cons_of_mem line hmem), List.append_assoc]
        rfl
  have hread : ((ended (lines.flatMap (foldLine limit))).splitOn '\n').foldl
      (fun found raw => joinLine found (stripReturn raw)) [] = lines ++ [[]] := by
    rw [splitOn_ended hfeed, List.foldl_append, List.foldl_map]
    simp only [stripReturn_append, hjoin, List.nil_append]
    rfl
  rw [unfold, hread]
  simp

end

end ContentLines

end Keeplin
