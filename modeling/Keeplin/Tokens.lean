/-
The tokens of a text: what stands between its blanks, none of it empty.
-/
import Mathlib.Data.List.TakeWhile

namespace Tokens

universe u

variable {A : Type u} (blank : A → Bool)

/-- A text is split at every blank, and the empty parts are left out. -/
def tokens (text : List A) : List (List A) :=
  (text.splitOnP blank).filter fun part => !part.isEmpty

/-- A token has something in it, and no blank. -/
structure IsToken (token : List A) : Prop where
  ne_nil : token ≠ []
  not_blank : ∀ item ∈ token, blank item = false

/-- A text that ends, or goes on with a blank. -/
def Ends (text : List A) : Prop := ∀ item ∈ text.head?, blank item = true

variable {blank}

theorem tokens_cons_blank {item : A} (hblank : blank item = true) (rest : List A) :
    tokens blank (item :: rest) = tokens blank rest := by
  rw [tokens, List.splitOnP_cons_eq_if_modifyHead, if_pos hblank]
  rfl

/-- Blanks in front are passed over. -/
theorem tokens_blanks {lead : List A} (hlead : ∀ item ∈ lead, blank item = true)
    (rest : List A) : tokens blank (lead ++ rest) = tokens blank rest := by
  induction lead with
  | nil => rfl
  | cons item lead ih =>
      obtain ⟨hitem, hlead⟩ := List.forall_mem_cons.mp hlead
      rw [List.cons_append, tokens_cons_blank hitem, ih hlead]

/-- A token is read up to the blank that ends it. -/
theorem tokens_token {token rest : List A} (htoken : IsToken blank token)
    (hrest : Ends blank rest) : tokens blank (token ++ rest) = token :: tokens blank rest := by
  have hkept : ∀ others : List (List A), (token :: others).filter (fun part => !part.isEmpty) =
      token :: others.filter fun part => !part.isEmpty := by
    intro others
    exact List.filter_cons_of_pos (by simpa using htoken.ne_nil)
  cases rest with
  | nil =>
      rw [List.append_nil, tokens, List.splitOnP_eq_singleton htoken.not_blank, hkept]
      rfl
  | cons separator rest =>
      have hseparator : blank separator = true := hrest separator rfl
      rw [tokens, List.splitOnP_append_cons_of_forall_mem htoken.not_blank separator hseparator,
        hkept, tokens_cons_blank hseparator]
      rfl

theorem of_dropWhile_eq_cons {test : A → Bool} {text rest : List A} {item : A}
    (hdrop : text.dropWhile test = item :: rest) : test item = false := by
  have hhead := List.head?_dropWhile_not test text
  rw [hdrop] at hhead
  exact hhead

/-- Every text is blanks, or blanks and a token and what comes after it. -/
theorem blanks_or_token (blank : A → Bool) (text : List A) :
    (∀ item ∈ text, blank item = true) ∨
      ∃ lead token rest, text = lead ++ (token ++ rest) ∧ (∀ item ∈ lead, blank item = true) ∧
        IsToken blank token ∧ Ends blank rest := by
  have htext : text.takeWhile blank ++ text.dropWhile blank = text :=
    List.takeWhile_append_dropWhile
  have hlead : ∀ item ∈ text.takeWhile blank, blank item = true :=
    fun item => List.mem_takeWhile_imp
  cases hafter : text.dropWhile blank with
  | nil =>
      rw [hafter, List.append_nil] at htext
      rw [htext] at hlead
      exact .inl hlead
  | cons item more =>
      have hitem : blank item = false := of_dropWhile_eq_cons hafter
      have hmore : more.takeWhile (fun c => !blank c) ++ more.dropWhile (fun c => !blank c) =
          more := List.takeWhile_append_dropWhile
      refine .inr ⟨text.takeWhile blank, item :: more.takeWhile fun c => !blank c,
        more.dropWhile fun c => !blank c, ?_, hlead, ⟨List.cons_ne_nil _ _, ?_⟩, ?_⟩
      · rw [List.cons_append, hmore, ← hafter, htext]
      · rintro c hc
        rcases List.mem_cons.mp hc with rfl | hc
        · exact hitem
        · simpa using List.mem_takeWhile_imp hc
      · intro separator hseparator
        cases hrest : more.dropWhile fun c => !blank c with
        | nil =>
            rw [hrest] at hseparator
            contradiction
        | cons c rest =>
            rw [hrest] at hseparator
            obtain rfl := Option.some.inj hseparator
            simpa using of_dropWhile_eq_cons hrest

theorem tokens_eq_nil_iff {text : List A} :
    tokens blank text = [] ↔ ∀ item ∈ text, blank item = true := by
  constructor
  · intro hnil
    rcases blanks_or_token blank text with hblanks | ⟨lead, token, rest, rfl, hlead, htoken, hrest⟩
    · exact hblanks
    · rw [tokens_blanks hlead, tokens_token htoken hrest] at hnil
      contradiction
  · intro hblanks
    have hnil := tokens_blanks hblanks []
    rw [List.append_nil] at hnil
    exact hnil

theorem tokens_eq_cons_iff {text token : List A} {others : List (List A)} :
    tokens blank text = token :: others ↔
      ∃ lead rest, text = lead ++ (token ++ rest) ∧ (∀ item ∈ lead, blank item = true) ∧
        IsToken blank token ∧ Ends blank rest ∧ tokens blank rest = others := by
  constructor
  · intro hcons
    rcases blanks_or_token blank text with hblanks | ⟨lead, found, rest, rfl, hlead, hfound, hrest⟩
    · rw [tokens_eq_nil_iff.mpr hblanks] at hcons
      contradiction
    · rw [tokens_blanks hlead, tokens_token hfound hrest] at hcons
      obtain ⟨rfl, hothers⟩ := List.cons.inj hcons
      exact ⟨lead, rest, rfl, hlead, hfound, hrest, hothers⟩
  · rintro ⟨lead, rest, rfl, hlead, htoken, hrest, rfl⟩
    rw [tokens_blanks hlead, tokens_token htoken hrest]

/-- The tokens have all of the text but the blanks. -/
theorem flatten_tokens (text : List A) :
    (tokens blank text).flatten = text.filter fun item => !blank item := by
  have hflatten : (tokens blank text).flatten = (text.splitOnP blank).flatten :=
    List.flatten_filter_not_isEmpty
  rw [hflatten]
  clear hflatten
  induction text with
  | nil => rfl
  | cons item rest ih =>
      rw [List.splitOnP_cons_eq_if_modifyHead]
      cases hblank : blank item with
      | true =>
          rw [if_pos rfl, List.flatten_cons, List.nil_append, ih,
            List.filter_cons_of_neg (by simp [hblank])]
      | false =>
          obtain ⟨head, others, hsplit⟩ :=
            List.exists_cons_of_ne_nil (List.splitOnP_ne_nil blank rest)
          rw [if_neg (by simp), List.filter_cons_of_pos (by simp [hblank]), ← ih, hsplit]
          rfl

theorem forall_tokens_not_mem_iff {text : List A} {item : A} (hitem : blank item = false) :
    (∀ token ∈ tokens blank text, item ∉ token) ↔ item ∉ text := by
  have hmem : item ∈ (tokens blank text).flatten ↔ item ∈ text := by
    rw [flatten_tokens, List.mem_filter, hitem]
    exact and_iff_left rfl
  rw [← hmem, List.mem_flatten, not_exists]
  exact forall_congr' fun token => not_and.symm

/-- The texts with two tokens. -/
theorem tokens_eq_pair_iff {text first second : List A} :
    tokens blank text = [first, second] ↔
      ∃ lead gap trail, text = lead ++ (first ++ (gap ++ (second ++ trail))) ∧
        (∀ item ∈ lead, blank item = true) ∧ (∀ item ∈ gap, blank item = true) ∧
        (∀ item ∈ trail, blank item = true) ∧ gap ≠ [] ∧ IsToken blank first ∧
        IsToken blank second := by
  constructor
  · intro hpair
    obtain ⟨lead, rest, rfl, hlead, hfirst, hends, hrest⟩ := tokens_eq_cons_iff.mp hpair
    obtain ⟨gap, trail, rfl, hgap, hsecond, -, htrail⟩ := tokens_eq_cons_iff.mp hrest
    refine ⟨lead, gap, trail, rfl, hlead, hgap, tokens_eq_nil_iff.mp htrail, ?_, hfirst, hsecond⟩
    rintro rfl
    obtain ⟨item, more, hcons⟩ := List.exists_cons_of_ne_nil hsecond.ne_nil
    have hitem : blank item = true := hends item (by rw [hcons]; rfl)
    have hnot := hsecond.not_blank item (by rw [hcons]; exact List.mem_cons_self)
    rw [hitem] at hnot
    contradiction
  · rintro ⟨lead, gap, trail, rfl, hlead, hgap, htrail, hne, hfirst, hsecond⟩
    have hends : Ends blank (gap ++ (second ++ trail)) := by
      obtain ⟨item, more, rfl⟩ := List.exists_cons_of_ne_nil hne
      intro found hfound
      obtain rfl := Option.some.inj hfound
      exact hgap _ List.mem_cons_self
    have hend : Ends blank trail := fun item hitem => htrail item (List.mem_of_mem_head? hitem)
    rw [tokens_blanks hlead, tokens_token hfirst hends, tokens_blanks hgap,
      tokens_token hsecond hend, tokens_eq_nil_iff.mpr htrail]

end Tokens
