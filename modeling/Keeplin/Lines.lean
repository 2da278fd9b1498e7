/-
Lines of a list, each with the terminator that ends it.  Only the last line may
lack one; a list without such a rest splits wherever one of its lines ends.
-/
import Mathlib.Data.List.DropRight
import Mathlib.Data.List.Induction

namespace Keeplin

universe u

namespace Lines

variable {A : Type u} [DecidableEq A] (terminator : A)

/-- The first line, its terminator included, and what comes after it. -/
def readLine : List A → List A × List A
  | [] => ([], [])
  | item :: rest =>
      if item = terminator then ([item], rest)
      else (item :: (readLine rest).1, (readLine rest).2)

def lines : List A → List (List A)
  | [] => []
  | item :: rest =>
      if item = terminator then [item] :: lines rest
      else
        match lines rest with
        | [] => [[item]]
        | line :: more => (item :: line) :: more

/-- The lines that have their terminator. -/
def completeLines (list : List A) : List (List A) :=
  (lines terminator list).filter fun line => line.getLast? = some terminator

/-- No line is left without its terminator. -/
def Whole (list : List A) : Prop :=
  list = [] ∨ list.getLast? = some terminator

instance (list : List A) : Decidable (Whole terminator list) :=
  inferInstanceAs (Decidable (_ ∨ _))

/-- The list up to its last terminator. -/
def wholePart (list : List A) : List A :=
  list.rdropWhile (· ≠ terminator)

/-- What comes behind the last terminator. -/
def fragment (list : List A) : List A :=
  list.rtakeWhile (· ≠ terminator)

section

variable {terminator}

@[simp] theorem lines_nil : lines terminator [] = [] := rfl

/-- Reading line after line gives the lines. -/
theorem lines_of_ne_nil {list : List A} (hne : list ≠ []) :
    lines terminator list =
      (readLine terminator list).1 :: lines terminator (readLine terminator list).2 := by
  induction list with
  | nil => contradiction
  | cons item rest ih =>
      simp only [lines, readLine]
      split
      · rfl
      · cases rest with
        | nil => rfl
        | cons next more => rw [ih (List.cons_ne_nil next more)]

theorem lines_eq_nil_iff {list : List A} : lines terminator list = [] ↔ list = [] := by
  constructor
  · intro hnil
    by_contra hne
    rw [lines_of_ne_nil hne] at hnil
    contradiction
  · rintro rfl
    rfl

theorem flatten_lines (list : List A) : (lines terminator list).flatten = list := by
  induction list with
  | nil => rfl
  | cons item rest ih =>
      simp only [lines]
      split
      · rw [List.flatten_cons, ih, List.singleton_append]
      · cases hlines : lines terminator rest with
        | nil =>
            rw [lines_eq_nil_iff.mp hlines]
            rfl
        | cons line more =>
            rw [hlines] at ih
            rw [← ih]
            rfl

omit [DecidableEq A] in
theorem foldl_length (pieces : List (List A)) (start : Nat) :
    pieces.foldl (fun offset piece => offset + piece.length) start =
      start + pieces.flatten.length := by
  induction pieces generalizing start with
  | nil => rfl
  | cons piece rest ih =>
      rw [List.foldl_cons, ih, List.flatten_cons, List.length_append, Nat.add_assoc]

/-- Counting the lines' lengths on from a start counts the whole list. -/
theorem foldl_length_lines (list : List A) (start : Nat) :
    (lines terminator list).foldl (fun offset line => offset + line.length) start =
      start + list.length := by
  rw [foldl_length, flatten_lines]

omit [DecidableEq A] in
theorem Whole.tail {item : A} {rest : List A} (hwhole : Whole terminator (item :: rest)) :
    Whole terminator rest := by
  cases rest with
  | nil => exact Or.inl rfl
  | cons next more =>
      rcases hwhole with hnil | hlast
      · contradiction
      · rw [List.getLast?_cons_cons] at hlast
        exact Or.inr hlast

theorem lines_append {front : List A} (hwhole : Whole terminator front) (back : List A) :
    lines terminator (front ++ back) = lines terminator front ++ lines terminator back := by
  induction front with
  | nil => rfl
  | cons item rest ih =>
      have hrest := ih hwhole.tail
      simp only [List.cons_append, lines, hrest]
      split
      · rfl
      · next hother =>
          have hne : rest ≠ [] := by
            rintro rfl
            rcases hwhole with hnil | hlast
            · contradiction
            · exact hother (Option.some.inj hlast)
          rw [lines_of_ne_nil hne]
          rfl

/-- A list without a rest has the first line of anything it begins. -/
theorem readLine_append {front : List A} (hwhole : Whole terminator front)
    (hne : front ≠ []) (back : List A) :
    (readLine terminator (front ++ back)).1 = (readLine terminator front).1 := by
  have hlines := lines_append hwhole back
  have hboth : front ++ back ≠ [] := fun hnil => hne (List.append_eq_nil_iff.mp hnil).1
  rw [lines_of_ne_nil hboth, lines_of_ne_nil hne] at hlines
  exact (List.cons.inj hlines).1

/-- A first line and its rest make up the list. -/
theorem readLine_split (terminator : A) (list : List A) :
    (readLine terminator list).1 ++ (readLine terminator list).2 = list := by
  induction list with
  | nil => rfl
  | cons item rest ih =>
      simp only [readLine]
      split
      · rfl
      · rw [List.cons_append, ih]

theorem drop_readLine (list : List A) :
    list.drop (readLine terminator list).1.length = (readLine terminator list).2 := by
  have hsplit := readLine_split terminator list
  nth_rewrite 2 [← hsplit]
  exact List.drop_left

theorem getLast?_of_mem_lines {list line : List A} (hwhole : Whole terminator list)
    (hline : line ∈ lines terminator list) : line.getLast? = some terminator := by
  induction list generalizing line with
  | nil => exact absurd hline List.not_mem_nil
  | cons item rest ih =>
      simp only [lines] at hline
      split at hline
      · next heq =>
          rcases List.mem_cons.mp hline with rfl | hmore
          · rw [heq]
            rfl
          · exact ih hwhole.tail hmore
      · next hother =>
          cases hlines : lines terminator rest with
          | nil =>
              rw [lines_eq_nil_iff.mp hlines] at hwhole
              rcases hwhole with hnil | hlast
              · contradiction
              · exact absurd (Option.some.inj hlast) hother
          | cons first more =>
              rw [hlines] at hline ih
              have hfirst := ih hwhole.tail List.mem_cons_self
              rcases List.mem_cons.mp hline with rfl | hmore
              · cases first with
                | nil => contradiction
                | cons head tail => exact hfirst
              · exact ih hwhole.tail (List.mem_cons_of_mem first hmore)

theorem completeLines_of_whole {list : List A} (hwhole : Whole terminator list) :
    completeLines terminator list = lines terminator list :=
  List.filter_eq_self.mpr fun _ hline => by simp [getLast?_of_mem_lines hwhole hline]

theorem lines_of_notMem {list : List A} (hnone : terminator ∉ list) (hne : list ≠ []) :
    lines terminator list = [list] := by
  induction list with
  | nil => contradiction
  | cons item rest ih =>
      have hitem : item ≠ terminator := fun heq => hnone (heq ▸ List.mem_cons_self)
      have hrest : terminator ∉ rest := fun hmem => hnone (List.mem_cons_of_mem item hmem)
      simp only [lines, if_neg hitem]
      cases rest with
      | nil => rfl
      | cons next more => rw [ih hrest (List.cons_ne_nil next more)]

theorem lines_terminated {list : List A} (hnone : terminator ∉ list) :
    lines terminator (list ++ [terminator]) = [list ++ [terminator]] := by
  induction list with
  | nil => simp [lines]
  | cons item rest ih =>
      have hitem : item ≠ terminator := fun heq => hnone (heq ▸ List.mem_cons_self)
      have hrest : terminator ∉ rest := fun hmem => hnone (List.mem_cons_of_mem item hmem)
      simp only [List.cons_append, lines, if_neg hitem, ih hrest]

omit [DecidableEq A] in
theorem whole_terminated (list : List A) : Whole terminator (list ++ [terminator]) :=
  Or.inr List.getLast?_concat

theorem wholePart_append_fragment (terminator : A) (list : List A) :
    wholePart terminator list ++ fragment terminator list = list :=
  List.rdropWhile_append_rtakeWhile

theorem whole_wholePart (terminator : A) (list : List A) :
    Whole terminator (wholePart terminator list) := by
  by_cases hnil : wholePart terminator list = []
  · exact .inl hnil
  · have hlast : ¬decide ((wholePart terminator list).getLast hnil ≠ terminator) = true :=
      List.rdropWhile_last_not _ _ hnil
    rw [decide_eq_true_eq, not_not] at hlast
    exact .inr ((List.getLast?_eq_some_getLast hnil).trans (congrArg some hlast))

theorem notMem_fragment (terminator : A) (list : List A) :
    terminator ∉ fragment terminator list := by
  intro hmem
  have hother := List.mem_rtakeWhile_imp hmem
  simp at hother

/-- The lines of the whole part stay, and the rest is one more. -/
theorem lines_eq_wholePart (terminator : A) (list : List A) :
    lines terminator list =
      lines terminator (wholePart terminator list) ++
        lines terminator (fragment terminator list) := by
  rw [← lines_append (whole_wholePart terminator list), wholePart_append_fragment]

/-- Any list is a part without a rest and a rest without a terminator. -/
theorem exists_whole_append (terminator : A) (list : List A) :
    ∃ whole fragment, list = whole ++ fragment ∧ Whole terminator whole ∧
      terminator ∉ fragment :=
  ⟨wholePart terminator list, fragment terminator list,
    (wholePart_append_fragment terminator list).symm, whole_wholePart terminator list,
    notMem_fragment terminator list⟩

/-- A rest that is not terminated is no complete line. -/
theorem completeLines_of_notMem {list : List A} (hnone : terminator ∉ list) :
    completeLines terminator list = [] := by
  by_cases hnil : list = []
  · rw [hnil]
    rfl
  · rw [completeLines, lines_of_notMem hnone hnil, List.filter_eq_nil_iff]
    intro line hline hlast
    rw [List.mem_singleton.mp hline, decide_eq_true_eq] at hlast
    exact hnone (List.mem_of_getLast? hlast)

/-- The complete lines are those of the whole part. -/
theorem completeLines_eq_wholePart (list : List A) :
    completeLines terminator list = lines terminator (wholePart terminator list) := by
  rw [completeLines, lines_eq_wholePart, List.filter_append]
  have hwhole := completeLines_of_whole (whole_wholePart terminator list)
  have hfragment := completeLines_of_notMem (notMem_fragment terminator list)
  rw [completeLines] at hwhole hfragment
  rw [hwhole, hfragment, List.append_nil]

/-- A line that is begun behind a list continues its last fragment. -/
theorem lines_append_fragment {list part ending : List A} (hpart : terminator ∉ part)
    (hne : part ≠ []) (hending : ending = [] ∨ ending = [terminator]) :
    lines terminator (list ++ (part ++ ending)) =
      completeLines terminator list ++ [fragment terminator list ++ (part ++ ending)] := by
  have hnone : terminator ∉ fragment terminator list ++ part := by
    rw [List.mem_append, not_or]
    exact ⟨notMem_fragment terminator list, hpart⟩
  have hlast : lines terminator (fragment terminator list ++ (part ++ ending)) =
      [fragment terminator list ++ (part ++ ending)] := by
    rw [← List.append_assoc]
    rcases hending with rfl | rfl
    · rw [List.append_nil]
      exact lines_of_notMem hnone (List.append_ne_nil_of_right_ne_nil _ hne)
    · exact lines_terminated hnone
  nth_rewrite 1 [← wholePart_append_fragment terminator list]
  rw [List.append_assoc, lines_append (whole_wholePart terminator list), hlast,
    completeLines_eq_wholePart]

/-- Complete lines stay lines of whatever the list is continued with. -/
theorem completeLines_append_subset (list more : List A) :
    completeLines terminator list ⊆ completeLines terminator (list ++ more) := by
  obtain ⟨whole, fragment, rfl, hwhole, hnone⟩ := exists_whole_append terminator list
  have hfragment := completeLines_of_notMem hnone
  rw [List.append_assoc]
  simp only [completeLines, lines_append hwhole, List.filter_append] at hfragment ⊢
  rw [hfragment, List.append_nil]
  exact List.subset_append_left _ _

end

end Lines

end Keeplin
