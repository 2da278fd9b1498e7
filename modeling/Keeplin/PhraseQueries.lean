/-
Queries that list phrases, as a full-text table reads them.  A string stands between
double quotes, a quote in it is doubled, and a star behind it asks for its last word by
prefix.  What is written so is read as those phrases and as nothing else.
-/
import Mathlib.Data.List.Basic

namespace PhraseQueries

/-- The double quote. -/
def quoteMark : Char := '\x22'

def nul : Char := '\x00'

inductive Token where
  | string (text : List Char)
  | star
deriving DecidableEq

/-- Where the reader stands: between the tokens, in a string of which it has taken
something, behind a quote in a string, or behind the end of the query. -/
inductive Scan where
  | outside
  | inside (taken : List Char)
  | quoted (taken : List Char)
  | ended

def isBlank (c : Char) : Bool := c ∈ [' ', '\t', '\n', '\r']

/-- The tokens that a character completes, and where the reader stands then.  Words
without quotes, parentheses and operators are in no list of phrases. -/
def scanOutside (c : Char) : Option (List Token × Scan) :=
  if c = nul then some ([], .ended)
  else if isBlank c then some ([], .outside)
  else if c = quoteMark then some ([], .inside [])
  else if c = '*' then some ([.star], .outside)
  else none

/-- A string that is not closed is an error. -/
def scan (c : Char) : Scan → Option (List Token × Scan)
  | .outside => scanOutside c
  | .inside taken =>
      if c = quoteMark then some ([], .quoted taken)
      else if c = nul then none
      else some ([], .inside (taken ++ [c]))
  | .quoted taken =>
      if c = quoteMark then some ([], .inside (taken ++ [c]))
      else (scanOutside c).map fun (tokens, next) => (.string taken :: tokens, next)
  | .ended => some ([], .ended)

def tokens (state : Scan) : List Char → Option (List Token)
  | [] =>
      match state with
      | .inside _ => none
      | .quoted taken => some [.string taken]
      | .outside | .ended => some []
  | c :: rest =>
      match scan c state with
      | none => none
      | some (completed, next) => (tokens next rest).map (completed ++ ·)

/-- A phrase, and whether its last word is one by prefix. -/
structure Phrase where
  text : List Char
  byPrefix : Bool
deriving DecidableEq

def phrasesOf : List Token → Option (List Phrase)
  | [] => some []
  | .string text :: .star :: rest => (phrasesOf rest).map (⟨text, true⟩ :: ·)
  | .string text :: rest => (phrasesOf rest).map (⟨text, false⟩ :: ·)
  | .star :: _ => none

/-- The phrases of a query that is a list of them. -/
def readPhrases (query : List Char) : Option (List Phrase) :=
  (tokens .outside query).bind phrasesOf

def doubled (c : Char) : List Char := if c = quoteMark then [c, c] else [c]

def written (text : List Char) : List Char :=
  quoteMark :: text.flatMap doubled ++ [quoteMark, '*']

variable {text : List Char}

theorem tokens_cons {state next : Scan} {c : Char} {completed : List Token} (rest : List Char)
    (hscan : scan c state = some (completed, next)) :
    tokens state (c :: rest) = (tokens next rest).map (completed ++ ·) := by
  simp only [tokens, hscan]

/-- A character that completes nothing. -/
theorem tokens_silent {state next : Scan} {c : Char} (rest : List Char)
    (hscan : scan c state = some ([], next)) : tokens state (c :: rest) = tokens next rest := by
  rw [tokens_cons rest hscan]
  cases tokens next rest <;> rfl

theorem tokens_inside_char {c : Char} (hc : c ≠ nul) (taken rest : List Char) :
    tokens (.inside taken) (doubled c ++ rest) = tokens (.inside (taken ++ [c])) rest := by
  rw [doubled]
  split
  · next hquote =>
      subst hquote
      have hfirst : scan quoteMark (.inside taken) = some ([], .quoted taken) := rfl
      have hsecond : scan quoteMark (.quoted taken) = some ([], .inside (taken ++ [quoteMark])) :=
        rfl
      exact (tokens_silent _ hfirst).trans (tokens_silent rest hsecond)
  · next hquote =>
      have htaken : scan c (.inside taken) = some ([], .inside (taken ++ [c])) :=
        (if_neg hquote).trans (if_neg hc)
      exact tokens_silent rest htaken

theorem tokens_inside (htext : nul ∉ text) (taken rest : List Char) :
    tokens (.inside taken) (text.flatMap doubled ++ quoteMark :: rest) =
      tokens (.quoted (taken ++ text)) rest := by
  induction text generalizing taken with
  | nil =>
      have hclosed : scan quoteMark (.inside taken) = some ([], .quoted taken) := rfl
      rw [List.append_nil]
      exact tokens_silent rest hclosed
  | cons c text ih =>
      rw [List.mem_cons, not_or] at htext
      rw [List.flatMap_cons, List.append_assoc, tokens_inside_char (Ne.symm htext.1),
        ih htext.2, List.append_assoc, List.singleton_append]

/-- A string ends nowhere before its end. -/
theorem tokens_inside_nul (htext : nul ∈ text) (taken rest : List Char) :
    tokens (.inside taken) (text.flatMap doubled ++ rest) = none := by
  induction text generalizing taken with
  | nil => contradiction
  | cons c text ih =>
      rw [List.flatMap_cons, List.append_assoc]
      by_cases hc : c = nul
      · subst hc
        rfl
      · rw [tokens_inside_char hc]
        exact ih ((List.mem_cons.mp htext).resolve_left (Ne.symm hc)) _

theorem tokens_opened (text rest : List Char) :
    tokens .outside (written text ++ rest) =
      tokens (.inside []) (text.flatMap doubled ++ quoteMark :: '*' :: rest) := by
  have htext : written text ++ rest =
      quoteMark :: (text.flatMap doubled ++ quoteMark :: '*' :: rest) := by
    rw [written, List.cons_append, List.cons_append, List.append_assoc]
    rfl
  rw [htext]
  exact tokens_silent _ rfl

theorem tokens_written (htext : nul ∉ text) (rest : List Char) :
    tokens .outside (written text ++ rest) =
      (tokens .outside rest).map fun more => .string text :: .star :: more := by
  have hstar : scan '*' (.quoted text) = some ([.string text, .star], .outside) := rfl
  rw [tokens_opened, tokens_inside htext, List.nil_append]
  exact tokens_cons rest hstar

theorem tokens_written_nul (htext : nul ∈ text) (rest : List Char) :
    tokens .outside (written text ++ rest) = none := by
  rw [tokens_opened, tokens_inside_nul htext]

/-- Phrases with a blank between them. -/
def listed (texts : List (List Char)) : List Char :=
  [' '].intercalate (texts.map written)

theorem listed_singleton (text : List Char) : listed [text] = written text := by
  simp [listed, List.intercalate]

theorem listed_cons_cons (text other : List Char) (texts : List (List Char)) :
    listed (text :: other :: texts) = written text ++ ' ' :: listed (other :: texts) := by
  simp [listed, List.intercalate]

theorem tokens_blank (rest : List Char) : tokens .outside (' ' :: rest) = tokens .outside rest :=
  tokens_silent rest rfl

theorem tokens_listed {texts : List (List Char)} (htexts : ∀ text ∈ texts, nul ∉ text) :
    tokens .outside (listed texts) =
      some (texts.flatMap fun text => [.string text, .star]) := by
  induction texts with
  | nil => rfl
  | cons text texts ih =>
      obtain ⟨htext, htexts⟩ := List.forall_mem_cons.mp htexts
      cases texts with
      | nil =>
          have hlast := tokens_written htext []
          rw [List.append_nil] at hlast
          rw [listed_singleton, hlast]
          rfl
      | cons other texts =>
          rw [listed_cons_cons, tokens_written htext, tokens_blank, ih htexts]
          rfl

theorem tokens_listed_nul {texts : List (List Char)} (htexts : ∃ text ∈ texts, nul ∈ text) :
    tokens .outside (listed texts) = none := by
  induction texts with
  | nil => simp at htexts
  | cons text texts ih =>
      cases texts with
      | nil =>
          rw [List.exists_mem_cons_iff] at htexts
          have hlast := tokens_written_nul (htexts.resolve_right (by simp)) []
          rw [List.append_nil] at hlast
          rw [listed_singleton, hlast]
      | cons other texts =>
          rw [listed_cons_cons]
          by_cases htext : nul ∈ text
          · exact tokens_written_nul htext _
          · rw [List.exists_mem_cons_iff] at htexts
            rw [tokens_written htext, tokens_blank, ih (htexts.resolve_left htext)]
            rfl

theorem phrasesOf_strings (texts : List (List Char)) :
    phrasesOf (texts.flatMap fun text => [.string text, .star]) =
      some (texts.map fun text => ⟨text, true⟩) := by
  induction texts with
  | nil => rfl
  | cons text texts ih =>
      rw [List.flatMap_cons, List.map_cons]
      simp only [List.cons_append, List.nil_append, phrasesOf, ih, Option.map_some]

/-- A list of phrases is read as those phrases, and refused if one has a nul in it. -/
theorem readPhrases_listed (texts : List (List Char)) :
    readPhrases (listed texts) =
      if ∀ text ∈ texts, nul ∉ text then some (texts.map fun text => ⟨text, true⟩)
      else none := by
  split
  · next htexts =>
      rw [readPhrases, tokens_listed htexts]
      exact phrasesOf_strings texts
  · next htexts =>
      have hnul : ∃ text ∈ texts, nul ∈ text := by
        by_contra hnone
        exact htexts fun text htext hmem => hnone ⟨text, htext, hmem⟩
      rw [readPhrases, tokens_listed_nul hnul]
      rfl

end PhraseQueries
