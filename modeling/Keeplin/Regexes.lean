/-
Regular expressions with captures as a backtracking matcher reads them.  The readings
of a text are listed in the order in which they are tried, and the first one counts.
-/
import Mathlib.Data.List.TakeWhile

namespace Keeplin

universe u v

/-- A star takes as much as it can and gives back as little as it must. -/
inductive Regex (A : Type u) where
  | any (accepts : A → Bool)
  | skip
  | seq (first second : Regex A)
  | or (first second : Regex A)
  | star (body : Regex A)
  | group (index : Nat) (body : Regex A)

/-- What a reading has taken, its captures with the latest first, and what follows. -/
structure Reading (A : Type u) where
  taken : List A
  captures : List (Nat × List A)
  rest : List A
deriving DecidableEq

namespace Reading

variable {A : Type u}

def followed (first second : Reading A) : Reading A :=
  ⟨first.taken ++ second.taken, second.captures ++ first.captures, second.rest⟩

def captured (index : Nat) (reading : Reading A) : Reading A :=
  { reading with captures := (index, reading.taken) :: reading.captures }

def capture (reading : Reading A) (index : Nat) : Option (List A) :=
  reading.captures.lookup index

theorem followed_assoc (first second third : Reading A) :
    (first.followed second).followed third = first.followed (second.followed third) := by
  simp [followed, List.append_assoc]

@[simp] theorem rest_followed (first second : Reading A) :
    (first.followed second).rest = second.rest := rfl

@[simp] theorem rest_captured (index : Nat) (reading : Reading A) :
    (reading.captured index).rest = reading.rest := rfl

end Reading

namespace Regex

variable {A : Type u}

/-- The readings of a star, with at most so many rounds; a round that takes nothing
is the last. -/
def starReadings (body : List A → List (Reading A)) (rounds : Nat) (text : List A) :
    List (Reading A) :=
  match rounds with
  | 0 => [⟨[], [], text⟩]
  | rounds + 1 =>
      (((body text).filter fun reading => !reading.taken.isEmpty).flatMap fun reading =>
        (starReadings body rounds reading.rest).map reading.followed) ++ [⟨[], [], text⟩]

def readings (regex : Regex A) (text : List A) : List (Reading A) :=
  match regex with
  | any accepts =>
      match text with
      | [] => []
      | item :: rest => if accepts item then [⟨[item], [], rest⟩] else []
  | skip => [⟨[], [], text⟩]
  | seq first second =>
      (first.readings text).flatMap fun reading =>
        (second.readings reading.rest).map reading.followed
  | or first second => first.readings text ++ second.readings text
  | star body => starReadings body.readings text.length text
  | group index body => (body.readings text).map (Reading.captured index)

def first (regex : Regex A) (text : List A) : Option (Reading A) :=
  (regex.readings text).head?

/-- One item that is known. -/
def single [DecidableEq A] (item : A) : Regex A :=
  any fun other => other = item

/-- Once or more often. -/
def plus (body : Regex A) : Regex A := seq body (star body)

/-- Expressions one after the other. -/
def concat (parts : List (Regex A)) : Regex A :=
  parts.foldr seq skip

theorem readings_any_nil (accepts : A → Bool) : (any accepts).readings [] = [] := rfl

theorem readings_any_cons (accepts : A → Bool) (item : A) (rest : List A) :
    (any accepts).readings (item :: rest) =
      if accepts item then [⟨[item], [], rest⟩] else [] := rfl

theorem readings_skip (text : List A) : (skip : Regex A).readings text = [⟨[], [], text⟩] := rfl

theorem readings_seq (before after : Regex A) (text : List A) :
    (seq before after).readings text =
      (before.readings text).flatMap fun reading =>
        (after.readings reading.rest).map reading.followed := rfl

theorem readings_or (before other : Regex A) (text : List A) :
    (or before other).readings text = before.readings text ++ other.readings text := rfl

theorem readings_star (body : Regex A) (text : List A) :
    (star body).readings text = starReadings body.readings text.length text := rfl

theorem readings_group (index : Nat) (body : Regex A) (text : List A) :
    (group index body).readings text = (body.readings text).map (Reading.captured index) := rfl

theorem first_skip (text : List A) : (skip : Regex A).first text = some ⟨[], [], text⟩ := rfl

theorem first_seq (before after : Regex A) (text : List A) :
    (seq before after).first text =
      (before.readings text).findSome? fun reading =>
        (after.first reading.rest).map reading.followed := by
  rw [first, readings_seq, List.head?_flatMap]
  congr 1
  funext reading
  rw [List.head?_map]
  rfl

theorem first_seq_of_nil {before : Regex A} {text : List A} (hnone : before.readings text = [])
    (after : Regex A) : (seq before after).first text = none := by
  rw [first_seq, hnone]
  rfl

theorem readings_seq_assoc (before between after : Regex A) (text : List A) :
    (seq (seq before between) after).readings text =
      (seq before (seq between after)).readings text := by
  simp only [readings_seq, List.flatMap_assoc, List.flatMap_map, List.map_flatMap, List.map_map]
  congr 1
  funext reading
  congr 1
  funext other
  congr 1
  funext last
  exact Reading.followed_assoc reading other last

theorem first_seq_assoc (before between after : Regex A) (text : List A) :
    (seq (seq before between) after).first text = (seq before (seq between after)).first text := by
  rw [first, readings_seq_assoc]
  rfl

theorem first_seq_skip (after : Regex A) (text : List A) :
    (seq skip after).first text = after.first text := by
  rw [first_seq]
  simp only [readings_skip, List.findSome?_cons, List.findSome?_nil]
  cases hfirst : after.first text with
  | none => rfl
  | some reading => simp [Reading.followed]

/-- What follows a list of expressions follows the last of them. -/
theorem first_seq_concat (parts : List (Regex A)) (after : Regex A) (text : List A) :
    (seq (concat parts) after).first text = (parts.foldr seq after).first text := by
  induction parts generalizing text with
  | nil => exact first_seq_skip after text
  | cons part parts ih =>
      have hsame : (seq part (seq (concat parts) after)).first text =
          (seq part (parts.foldr seq after)).first text := by
        simp only [first_seq, ih]
      exact (first_seq_assoc part (concat parts) after text).trans hsame

theorem first_seq_or (before other after : Regex A) (text : List A) :
    (seq (or before other) after).first text =
      ((seq before after).first text).or ((seq other after).first text) := by
  simp only [first_seq, readings_or, List.findSome?_append]

theorem first_seq_any (accepts : A → Bool) (after : Regex A) (item : A) (rest : List A) :
    (seq (any accepts) after).first (item :: rest) =
      if accepts item then (after.first rest).map (Reading.followed ⟨[item], [], rest⟩)
      else none := by
  rw [first_seq, readings_any_cons]
  split
  · simp only [List.findSome?_cons, List.findSome?_nil]
    cases (after.first rest).map (Reading.followed ⟨[item], [], rest⟩) <;> rfl
  · rfl

theorem first_seq_single [DecidableEq A] (item : A) (after : Regex A) (rest : List A) :
    (seq (single item) after).first (item :: rest) =
      (after.first rest).map (Reading.followed ⟨[item], [], rest⟩) := by
  rw [single, first_seq_any, if_pos (decide_eq_true rfl)]

theorem first_seq_single_of_ne [DecidableEq A] {item other : A} (hne : other ≠ item)
    (after : Regex A) (rest : List A) : (seq (single item) after).first (other :: rest) = none := by
  rw [single, first_seq_any, if_neg (by simp [hne])]

/-- The first reading of the text is this one, and what any later one gives back
begins with items of a kind. -/
def Runs (kind : A → Bool) (regex : Regex A) (text : List A) (reading : Reading A) : Prop :=
  ∃ others, regex.readings text = reading :: others ∧
    ∀ other ∈ others, ∃ given, given ≠ [] ∧ (∀ item ∈ given, kind item = true) ∧
      other.rest = given ++ reading.rest

/-- After a run the text is read on behind it, if giving items of the run back does
not help what follows. -/
theorem first_seq_of_runs {kind : A → Bool} {before after : Regex A} {text : List A}
    {reading : Reading A} (hruns : Runs kind before text reading)
    (hgiven : after.first reading.rest = none → ∀ given, given ≠ [] →
      (∀ item ∈ given, kind item = true) → after.first (given ++ reading.rest) = none) :
    (seq before after).first text = (after.first reading.rest).map reading.followed := by
  obtain ⟨others, hreadings, hothers⟩ := hruns
  rw [first_seq, hreadings, List.findSome?_cons]
  cases hfirst : after.first reading.rest with
  | some found => rfl
  | none =>
      refine List.findSome?_eq_none_iff.mpr fun other hother => ?_
      obtain ⟨given, hne, hkind, hrest⟩ := hothers other hother
      rw [hrest, hgiven hfirst given hne hkind]
      rfl

theorem Runs.captured {kind : A → Bool} {body : Regex A} {text : List A} {reading : Reading A}
    (hruns : Runs kind body text reading) (index : Nat) :
    Runs kind (group index body) text (reading.captured index) := by
  obtain ⟨others, hreadings, hothers⟩ := hruns
  refine ⟨others.map (Reading.captured index), by rw [readings_group, hreadings]; rfl, ?_⟩
  intro other hother
  obtain ⟨plain, hplain, rfl⟩ := List.mem_map.mp hother
  exact hothers plain hplain

theorem Runs.after_item {kind accepts : A → Bool} {body : Regex A} {item : A} {rest : List A}
    {reading : Reading A} (haccepts : accepts item = true) (hruns : Runs kind body rest reading) :
    Runs kind (seq (any accepts) body) (item :: rest)
      (Reading.followed ⟨[item], [], rest⟩ reading) := by
  obtain ⟨others, hreadings, hothers⟩ := hruns
  refine ⟨others.map (Reading.followed ⟨[item], [], rest⟩), ?_, ?_⟩
  · simp only [readings, haccepts, if_true, List.flatMap_cons, List.flatMap_nil, hreadings,
      List.append_nil, List.map_cons]
  · intro other hother
    obtain ⟨plain, hplain, rfl⟩ := List.mem_map.mp hother
    exact hothers plain hplain

theorem readings_star_any (kind : A → Bool) (item : A) (rest : List A) :
    (star (any kind)).readings (item :: rest) =
      if kind item then
        ((star (any kind)).readings rest).map (Reading.followed ⟨[item], [], rest⟩) ++
          [⟨[], [], item :: rest⟩]
      else [⟨[], [], item :: rest⟩] := by
  simp only [readings_star, readings_any_cons, List.length_cons, starReadings]
  split
  · simp
  · rfl

/-- A star over single items takes all it can, and gives them back one by one. -/
theorem runs_star_any (kind : A → Bool) (text : List A) :
    Runs kind (star (any kind)) text ⟨text.takeWhile kind, [], text.dropWhile kind⟩ := by
  induction text with
  | nil => exact ⟨[], rfl, by simp⟩
  | cons item rest ih =>
      cases hkind : kind item with
      | false =>
          refine ⟨[], ?_, by simp⟩
          rw [readings_star_any, hkind, List.takeWhile_cons_of_neg (by simp [hkind]),
            List.dropWhile_cons_of_neg (by simp [hkind])]
          rfl
      | true =>
          obtain ⟨others, hreadings, hothers⟩ := ih
          rw [List.takeWhile_cons_of_pos hkind, List.dropWhile_cons_of_pos hkind]
          refine ⟨others.map (Reading.followed ⟨[item], [], rest⟩) ++ [⟨[], [], item :: rest⟩],
            ?_, ?_⟩
          · rw [readings_star_any, hkind, if_pos rfl, hreadings]
            rfl
          · intro other hother
            rcases List.mem_append.mp hother with hmapped | hlast
            · obtain ⟨plain, hplain, rfl⟩ := List.mem_map.mp hmapped
              exact hothers plain hplain
            · rw [List.mem_singleton.mp hlast]
              refine ⟨item :: rest.takeWhile kind, List.cons_ne_nil _ _, ?_, ?_⟩
              · intro taken htaken
                rcases List.mem_cons.mp htaken with rfl | htaken
                · exact hkind
                · exact List.mem_takeWhile_imp htaken
              · rw [List.cons_append, List.takeWhile_append_dropWhile]

/-- The first reading of a text is what the grammar admits at its beginning, with the
captures; so the grammar admits one beginning at most. -/
def Reads (regex : Regex A) (grammar : List A → List (Nat × List A) → Prop) : Prop :=
  ∀ text reading, regex.first text = some reading ↔
    grammar reading.taken reading.captures ∧ text = reading.taken ++ reading.rest

theorem Reads.of_iff {regex : Regex A} {grammar other : List A → List (Nat × List A) → Prop}
    (hreads : Reads regex grammar)
    (hiff : ∀ taken captures, grammar taken captures ↔ other taken captures) :
    Reads regex other := by
  intro text reading
  rw [hreads text reading, hiff]

theorem reads_skip : Reads (skip : Regex A) fun taken captures => taken = [] ∧ captures = [] := by
  intro text reading
  rw [first_skip, Option.some.injEq]
  constructor
  · rintro rfl
    exact ⟨⟨rfl, rfl⟩, rfl⟩
  · obtain ⟨taken, captures, rest⟩ := reading
    rintro ⟨⟨rfl, rfl⟩, rfl⟩
    rfl

section Reads

variable {after : Regex A} {grammar : List A → List (Nat × List A) → Prop}

theorem Reads.single [DecidableEq A] (hafter : Reads after grammar) (item : A) :
    Reads (seq (single item) after) fun taken captures =>
      ∃ more, taken = item :: more ∧ grammar more captures := by
  intro text reading
  constructor
  · intro hfirst
    cases text with
    | nil => contradiction
    | cons other rest =>
        by_cases hne : other = item
        · subst hne
          rw [first_seq_single, Option.map_eq_some_iff] at hfirst
          obtain ⟨found, hfound, rfl⟩ := hfirst
          obtain ⟨hgrammar, hrest⟩ := (hafter rest found).mp hfound
          refine ⟨⟨found.taken, rfl, ?_⟩, congrArg (other :: ·) hrest⟩
          simpa [Reading.followed] using hgrammar
        · rw [first_seq_single_of_ne hne] at hfirst
          contradiction
  · obtain ⟨taken, captures, rest⟩ := reading
    rintro ⟨⟨more, rfl, hgrammar⟩, rfl⟩
    have hfound := (hafter (more ++ rest) ⟨more, captures, rest⟩).mpr ⟨hgrammar, rfl⟩
    simp only [List.cons_append, first_seq_single, hfound, Option.map_some, Reading.followed,
      List.nil_append, List.append_nil]

/-- What is given back of a run is of no use to what the grammar admits behind it. -/
theorem Reads.given_back {kind : A → Bool} (hafter : Reads after grammar)
    (hgive : ∀ item more captures, kind item = true → grammar (item :: more) captures →
      grammar more captures)
    (hne : ∀ captures, ¬grammar [] captures) {text : List A} (hnone : after.first text = none)
    (given : List A) (hkind : ∀ item ∈ given, kind item = true) :
    after.first (given ++ text) = none := by
  have hfront (given : List A) (hkind : ∀ item ∈ given, kind item = true) (taken : List A)
      (captures : List (Nat × List A)) (rest : List A) (hgrammar : grammar taken captures)
      (hsame : given ++ text = taken ++ rest) :
      ∃ taken, grammar taken captures ∧ text = taken ++ rest := by
    induction given generalizing taken with
    | nil => exact ⟨taken, hgrammar, hsame⟩
    | cons item given ih =>
        cases taken with
        | nil => exact absurd hgrammar (hne captures)
        | cons other taken =>
            obtain ⟨rfl, hmore⟩ := List.cons.inj hsame
            exact ih (fun other hother => hkind other (List.mem_cons_of_mem _ hother)) taken
              (hgive item taken captures (hkind item List.mem_cons_self) hgrammar) hmore
  cases hfirst : after.first (given ++ text) with
  | none => rfl
  | some reading =>
      obtain ⟨hgrammar, hsame⟩ := (hafter _ reading).mp hfirst
      obtain ⟨taken, hgrammar, rfl⟩ := hfront given hkind _ _ _ hgrammar hsame
      rw [(hafter _ ⟨taken, reading.captures, reading.rest⟩).mpr ⟨hgrammar, rfl⟩] at hnone
      contradiction

/-- A run, perhaps captured, and what the grammar admits behind it.  The run is as long
as it can be. -/
theorem Reads.run {kind : A → Bool} {before : Regex A} {extra : List A → List (Nat × List A)}
    (hafter : Reads after grammar)
    (hruns : ∀ text, Runs kind before text
      ⟨text.takeWhile kind, extra (text.takeWhile kind), text.dropWhile kind⟩)
    (hgive : ∀ item more captures, kind item = true → grammar (item :: more) captures →
      grammar more captures)
    (hne : ∀ captures, ¬grammar [] captures) :
    Reads (seq before after) fun taken captures =>
      ∃ run item more found, taken = run ++ item :: more ∧ captures = found ++ extra run ∧
        (∀ item ∈ run, kind item = true) ∧ kind item = false ∧ grammar (item :: more) found := by
  intro text reading
  rw [first_seq_of_runs (hruns text) fun hnone given _ hkind =>
    hafter.given_back hgive hne hnone given hkind, Option.map_eq_some_iff]
  constructor
  · rintro ⟨found, hfound, rfl⟩
    have hgrammar := ((hafter _ found).mp hfound).1
    have hrest : text.dropWhile kind = found.taken ++ found.rest :=
      ((hafter _ found).mp hfound).2
    have htext : text = text.takeWhile kind ++ text.dropWhile kind :=
      (List.takeWhile_append_dropWhile).symm
    cases htaken : found.taken with
    | nil => exact absurd (htaken ▸ hgrammar) (hne _)
    | cons item more =>
        have hdrop : text.dropWhile kind = item :: (more ++ found.rest) := by
          rw [hrest, htaken, List.cons_append]
        have hitem : kind item = false := by
          have hhead := List.head?_dropWhile_not kind text
          rw [hdrop] at hhead
          simpa using hhead
        refine ⟨⟨text.takeWhile kind, item, more, found.captures, ?_, rfl,
          fun _ => List.mem_takeWhile_imp, hitem, htaken ▸ hgrammar⟩, ?_⟩
        · rw [Reading.followed, htaken]
        · rw [Reading.followed, List.append_assoc, ← hrest]
          exact htext
  · obtain ⟨taken, captures, rest⟩ := reading
    rintro ⟨⟨run, item, more, found, rfl, rfl, hrun, hitem, hgrammar⟩, rfl⟩
    have htake : (run ++ item :: (more ++ rest)).takeWhile kind = run := by
      rw [List.takeWhile_append_of_pos hrun, List.takeWhile_cons_of_neg (by simp [hitem]),
        List.append_nil]
    have hdrop : (run ++ item :: (more ++ rest)).dropWhile kind = item :: (more ++ rest) := by
      rw [List.dropWhile_append_of_pos hrun, List.dropWhile_cons_of_neg (by simp [hitem])]
    have htext : run ++ item :: more ++ rest = run ++ item :: (more ++ rest) := by simp
    refine ⟨⟨item :: more, found, rest⟩, ?_, ?_⟩
    · rw [htext, hdrop]
      exact (hafter _ ⟨item :: more, found, rest⟩).mpr ⟨hgrammar, rfl⟩
    · rw [htext, htake]
      rfl

/-- A run behind which nothing of its kind can begin. -/
theorem Reads.run_before {kind : A → Bool} {before : Regex A}
    {extra : List A → List (Nat × List A)} (hafter : Reads after grammar)
    (hruns : ∀ text, Runs kind before text
      ⟨text.takeWhile kind, extra (text.takeWhile kind), text.dropWhile kind⟩)
    (hbegins : ∀ taken captures, grammar taken captures →
      ∃ item more, taken = item :: more ∧ kind item = false) :
    Reads (seq before after) fun taken captures =>
      ∃ run more found, taken = run ++ more ∧ captures = found ++ extra run ∧
        (∀ item ∈ run, kind item = true) ∧ grammar more found := by
  refine (hafter.run hruns ?_ ?_).of_iff fun taken captures => ⟨?_, ?_⟩
  · intro item more captures hkind hgrammar
    obtain ⟨other, rest, hsame, hother⟩ := hbegins _ _ hgrammar
    rw [(List.cons.inj hsame).1, hother] at hkind
    contradiction
  · intro captures hgrammar
    obtain ⟨item, more, hsame, _⟩ := hbegins _ _ hgrammar
    contradiction
  · rintro ⟨run, item, more, found, rfl, rfl, hrun, _, hgrammar⟩
    exact ⟨run, item :: more, found, rfl, rfl, hrun, hgrammar⟩
  · rintro ⟨run, more, found, rfl, rfl, hrun, hgrammar⟩
    obtain ⟨item, rest, rfl, hitem⟩ := hbegins _ _ hgrammar
    exact ⟨run, item, rest, found, rfl, rfl, hrun, hitem, hgrammar⟩

/-- A star whose items may also begin what follows; it takes them all. -/
theorem Reads.star {kind : A → Bool} (hafter : Reads after grammar)
    (hgive : ∀ item more captures, kind item = true → grammar (item :: more) captures →
      grammar more captures)
    (hne : ∀ captures, ¬grammar [] captures) :
    Reads (seq (Regex.star (any kind)) after) fun taken captures =>
      ∃ run item more, taken = run ++ item :: more ∧ (∀ item ∈ run, kind item = true) ∧
        kind item = false ∧ grammar (item :: more) captures := by
  have hreads := @Reads.run _ _ _ kind (Regex.star (any kind)) (fun _ => []) hafter
    (runs_star_any kind) hgive hne
  refine hreads.of_iff fun taken captures => ⟨?_, ?_⟩
  · rintro ⟨run, item, more, found, rfl, rfl, hrun, hitem, hgrammar⟩
    exact ⟨run, item, more, rfl, hrun, hitem, (List.append_nil found).symm ▸ hgrammar⟩
  · rintro ⟨run, item, more, rfl, hrun, hitem, hgrammar⟩
    exact ⟨run, item, more, captures, rfl, (List.append_nil captures).symm, hrun, hitem, hgrammar⟩

theorem Reads.star_before {kind : A → Bool} (hafter : Reads after grammar)
    (hbegins : ∀ taken captures, grammar taken captures →
      ∃ item more, taken = item :: more ∧ kind item = false) :
    Reads (seq (Regex.star (any kind)) after) fun taken captures =>
      ∃ run more, taken = run ++ more ∧ (∀ item ∈ run, kind item = true) ∧
        grammar more captures := by
  have hreads := @Reads.run_before _ _ _ kind (Regex.star (any kind)) (fun _ => []) hafter
    (runs_star_any kind) hbegins
  refine hreads.of_iff fun taken captures => ⟨?_, ?_⟩
  · rintro ⟨run, more, found, rfl, rfl, hrun, hgrammar⟩
    exact ⟨run, more, rfl, hrun, (List.append_nil found).symm ▸ hgrammar⟩
  · rintro ⟨run, more, rfl, hrun, hgrammar⟩
    exact ⟨run, more, captures, rfl, (List.append_nil captures).symm, hrun, hgrammar⟩

theorem Reads.group_before {kind : A → Bool} (index : Nat) (hafter : Reads after grammar)
    (hbegins : ∀ taken captures, grammar taken captures →
      ∃ item more, taken = item :: more ∧ kind item = false) :
    Reads (seq (group index (Regex.star (any kind))) after) fun taken captures =>
      ∃ run more found, taken = run ++ more ∧ captures = found ++ [(index, run)] ∧
        (∀ item ∈ run, kind item = true) ∧ grammar more found :=
  @Reads.run_before _ _ _ kind (group index (Regex.star (any kind))) (fun run => [(index, run)])
    hafter (fun text => (runs_star_any kind text).captured index) hbegins

/-- A mark and at least one item of a kind, captured, and what cannot begin with the
kind behind them. -/
theorem Reads.marked_run [DecidableEq A] {kind : A → Bool} (mark : A) (index : Nat)
    (hafter : Reads after grammar)
    (hbegins : ∀ taken captures, grammar taken captures →
      ∃ item more, taken = item :: more ∧ kind item = false) :
    Reads (seq (group index (seq (Regex.single mark) (plus (any kind)))) after)
      fun taken captures => ∃ run more found, taken = mark :: run ++ more ∧
        captures = found ++ [(index, mark :: run)] ∧ run ≠ [] ∧
        (∀ item ∈ run, kind item = true) ∧ grammar more found := by
  have hnot : ∀ item more, kind item = true → after.first (item :: more) = none := by
    intro item more hkind
    cases hfirst : after.first (item :: more) with
    | none => rfl
    | some reading =>
        obtain ⟨hgrammar, hsame⟩ := (hafter _ reading).mp hfirst
        obtain ⟨other, rest, htaken, hother⟩ := hbegins _ _ hgrammar
        rw [htaken] at hsame
        rw [(List.cons.inj hsame).1, hother] at hkind
        contradiction
  have hfirst (item : A) (rest : List A) (hitem : kind item = true) :
      (seq (group index (seq (Regex.single mark) (plus (any kind)))) after).first
          (mark :: item :: rest) =
        (after.first (rest.dropWhile kind)).map (Reading.followed
          ⟨mark :: item :: rest.takeWhile kind,
            [(index, mark :: item :: rest.takeWhile kind)], rest.dropWhile kind⟩) := by
    have hrun : Runs kind (seq (Regex.single mark) (plus (any kind))) (mark :: item :: rest)
        ⟨mark :: item :: rest.takeWhile kind, [], rest.dropWhile kind⟩ :=
      @Runs.after_item _ _ (fun other => other = mark) _ _ _ _ (decide_eq_true rfl)
        ((runs_star_any kind rest).after_item hitem)
    refine first_seq_of_runs (hrun.captured index) fun _ given hne hkind => ?_
    obtain ⟨other, more, rfl⟩ := List.exists_cons_of_ne_nil hne
    exact hnot other _ (hkind other List.mem_cons_self)
  have hnone (text : List A)
      (htext : ∀ item rest, text = mark :: item :: rest → kind item = false) :
      (group index (seq (Regex.single mark) (plus (any kind)))).readings text = [] := by
    match text with
    | [] | [_] => simp [readings_group, readings_seq, readings_any_nil, readings_any_cons, plus,
        Regex.single]
    | other :: item :: rest =>
        by_cases hmark : other = mark
        · have hitem := htext item rest (by rw [hmark])
          simp [readings_group, readings_seq, readings_any_cons, plus, Regex.single, hitem]
        · simp [readings_group, readings_seq, readings_any_cons, Regex.single, hmark]
  intro text reading
  constructor
  · intro hsome
    by_cases hform : ∃ item rest, text = mark :: item :: rest ∧ kind item = true
    · obtain ⟨item, rest, rfl, hitem⟩ := hform
      rw [hfirst item rest hitem, Option.map_eq_some_iff] at hsome
      obtain ⟨found, hfound, rfl⟩ := hsome
      obtain ⟨hgrammar, hrest⟩ := (hafter _ found).mp hfound
      refine ⟨⟨item :: rest.takeWhile kind, found.taken, found.captures, rfl, rfl,
        List.cons_ne_nil _ _, ?_, hgrammar⟩, ?_⟩
      · intro taken htaken
        rcases List.mem_cons.mp htaken with rfl | htaken
        · exact hitem
        · exact List.mem_takeWhile_imp htaken
      · have hsplit : rest = rest.takeWhile kind ++ (found.taken ++ found.rest) := by
          rw [← hrest, List.takeWhile_append_dropWhile]
        rw [Reading.followed, List.append_assoc, List.cons_append, List.cons_append, ← hsplit]
    · have hother : ∀ item rest, text = mark :: item :: rest → kind item = false := by
        intro item rest htext
        exact Bool.eq_false_iff.mpr fun hitem => hform ⟨item, rest, htext, hitem⟩
      rw [first_seq_of_nil (hnone text hother)] at hsome
      contradiction
  · obtain ⟨taken, captures, rest⟩ := reading
    rintro ⟨⟨run, more, found, rfl, rfl, hne, hrun, hgrammar⟩, rfl⟩
    obtain ⟨item, run, rfl⟩ := List.exists_cons_of_ne_nil hne
    obtain ⟨next, further, rfl, hnext⟩ := hbegins _ _ hgrammar
    have hitems : ∀ other ∈ run, kind other = true :=
      fun other hother => hrun other (List.mem_cons_of_mem item hother)
    have htake : (run ++ next :: (further ++ rest)).takeWhile kind = run := by
      rw [List.takeWhile_append_of_pos hitems, List.takeWhile_cons_of_neg (by simp [hnext]),
        List.append_nil]
    have hdrop : (run ++ next :: (further ++ rest)).dropWhile kind =
        next :: (further ++ rest) := by
      rw [List.dropWhile_append_of_pos hitems, List.dropWhile_cons_of_neg (by simp [hnext])]
    have htext : mark :: (item :: run) ++ next :: further ++ rest =
        mark :: item :: (run ++ next :: (further ++ rest)) := by simp
    have hfound := (hafter _ ⟨next :: further, found, rest⟩).mpr ⟨hgrammar, rfl⟩
    rw [htext, hfirst item _ (hrun item List.mem_cons_self), hdrop, htake]
    exact congrArg (Option.map _) hfound

end Reads

/-- One of two expressions that cannot begin alike. -/
theorem Reads.or {first second either : Regex A}
    {grammar other : List A → List (Nat × List A) → Prop} {kind : A → Bool}
    (hfirst : Reads first grammar) (hsecond : Reads second other)
    (heither : ∀ text, either.first text = (first.first text).or (second.first text))
    (hbegins : ∀ taken captures, grammar taken captures →
      ∃ item more, taken = item :: more ∧ kind item = true)
    (hother : ∀ taken captures, other taken captures →
      ∃ item more, taken = item :: more ∧ kind item = false) :
    Reads either fun taken captures => grammar taken captures ∨ other taken captures := by
  intro text reading
  rw [heither, Option.or_eq_some_iff]
  constructor
  · rintro (hfound | ⟨_, hfound⟩)
    · obtain ⟨hgrammar, hsame⟩ := (hfirst text reading).mp hfound
      exact ⟨.inl hgrammar, hsame⟩
    · obtain ⟨hgrammar, hsame⟩ := (hsecond text reading).mp hfound
      exact ⟨.inr hgrammar, hsame⟩
  · rintro ⟨hgrammar | hgrammar, hsame⟩
    · exact .inl ((hfirst text reading).mpr ⟨hgrammar, hsame⟩)
    · refine .inr ⟨?_, (hsecond text reading).mpr ⟨hgrammar, hsame⟩⟩
      cases hfound : first.first text with
      | none => rfl
      | some found =>
          obtain ⟨hfoundGrammar, hfoundSame⟩ := (hfirst text found).mp hfound
          obtain ⟨item, more, htaken, hitem⟩ := hbegins _ _ hfoundGrammar
          obtain ⟨next, rest, hnext, hkind⟩ := hother _ _ hgrammar
          rw [hsame, htaken, hnext] at hfoundSame
          rw [(List.cons.inj hfoundSame).1, hitem] at hkind
          contradiction

end Regex

section Scan

variable {A : Type u} {B : Type v}

/-- Read at each position in turn.  Behind a value the scan goes on after what it was
read from, and items still to be passed over are counted down. -/
def scanFrom (read : List A → Option (B × List A)) (passed : Nat) (text : List A) : List B :=
  match text, passed with
  | [], _ => []
  | _ :: rest, passed + 1 => scanFrom read passed rest
  | item :: rest, 0 =>
      match read (item :: rest) with
      | some (value, after) => value :: scanFrom read (rest.length - after.length) rest
      | none => scanFrom read 0 rest

def scan (read : List A → Option (B × List A)) (text : List A) : List B :=
  scanFrom read 0 text

/-- The readings that `captures_iter` goes through, of an expression that takes at
least one item. -/
def Regex.capturesIter (regex : Regex A) (text : List A) : List (Reading A) :=
  scan (fun text => (regex.first text).map fun reading => (reading, reading.rest)) text

theorem scanFrom_length (read : List A → Option (B × List A)) (passed rest : List A) :
    scanFrom read passed.length (passed ++ rest) = scan read rest := by
  induction passed with
  | nil => rfl
  | cons item passed ih => exact ih

variable {read : List A → Option (B × List A)}

theorem scan_cons_of_none {item : A} {rest : List A} (hread : read (item :: rest) = none) :
    scan read (item :: rest) = scan read rest := by
  rw [scan, scanFrom, hread]
  rfl

theorem scan_of_some {taken rest : List A} {value : B} (htaken : taken ≠ [])
    (hread : read (taken ++ rest) = some (value, rest)) :
    scan read (taken ++ rest) = value :: scan read rest := by
  obtain ⟨item, more, rfl⟩ := List.exists_cons_of_ne_nil htaken
  rw [scan, List.cons_append, scanFrom, ← List.cons_append, hread]
  have hlength : (more ++ rest).length - rest.length = more.length := by simp
  simp only [hlength]
  rw [scanFrom_length]

/-- Nothing is read from a text at whose items no value begins. -/
theorem scan_append_of_none {text rest : List A}
    (hread : ∀ item ∈ text, ∀ more, read (item :: more) = none) :
    scan read (text ++ rest) = scan read rest := by
  induction text with
  | nil => rfl
  | cons item text ih =>
      rw [List.cons_append, scan_cons_of_none (hread item List.mem_cons_self _)]
      exact ih fun other hother => hread other (List.mem_cons_of_mem item hother)

theorem scanFrom_map {C : Type v} (convert : B → C) (passed : Nat) (text : List A) :
    scanFrom (fun text => (read text).map fun found => (convert found.1, found.2)) passed text =
      (scanFrom read passed text).map convert := by
  induction text generalizing passed with
  | nil => cases passed <;> rfl
  | cons item rest ih =>
      cases passed with
      | succ passed => exact ih passed
      | zero =>
          rw [scanFrom, scanFrom]
          cases read (item :: rest) with
          | none => exact ih 0
          | some found =>
              simp only [Option.map_some, List.map_cons]
              rw [ih]

end Scan

end Keeplin
