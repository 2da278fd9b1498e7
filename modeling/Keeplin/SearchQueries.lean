/-
What a search answers.  The text of a query is made into a list of phrases for the
full-text table, and the rest of it into conditions on the columns of a row, which are
texts; the answer has the notes that the store has under the ids of the first rows.
-/
import Keeplin.LinkPatterns
import Keeplin.PhraseQueries
import Keeplin.Selections
import Keeplin.StackSearch
import Keeplin.Tokens

namespace Keeplin

open PhraseQueries Selections StorageBackend

/-- The microsecond that an instant lies in. -/
def micros (instant : DateTime) : Int := instant / 1000

theorem rfc_lt {instant later : DateTime} (hyear : FourDigitYear instant)
    (hyear' : FourDigitYear later) (hlt : micros instant < micros later) :
    rfc instant < rfc later := by
  have hlength := (length_secondText hyear.1 hyear.2).trans
    (length_secondText hyear'.1 hyear'.2).symm
  have hlex : secondOf instant < secondOf later ∨ secondOf instant = secondOf later ∧
      nanoOf instant / 10 ^ 3 < nanoOf later / 10 ^ 3 := by
    simp only [micros, secondOf, nanoOf] at *
    omega
  rw [rfc, rfc, List.append_assoc, List.append_assoc, append_lt_append_iff hlength]
  rcases hlex with hsecond | ⟨hsecond, hnano⟩
  · exact Or.inl (secondText_lt hyear.1 hyear'.2 hsecond)
  · refine Or.inr ⟨by rw [hsecond], ?_⟩
    have hdigits : decimal 6 (nanoOf instant / 10 ^ 3) < decimal 6 (nanoOf later / 10 ^ 3) :=
      (decimal_fraction_lt_iff (by decide) (nanoOf_lt instant) (nanoOf_lt later)).mpr hnano
    rw [fractionText, fractionText, if_neg (by decide), if_neg (by decide), List.cons_append,
      List.cons_append, List.cons_lt_cons_iff]
    exact Or.inr ⟨rfl, append_lt_append_of_lt (by simp [decimal]) hdigits _ _⟩

theorem rfc_eq {instant other : DateTime} (heq : micros instant = micros other) :
    rfc instant = rfc other := by
  have hsecond : secondOf instant = secondOf other := by
    simp only [micros, secondOf] at *
    omega
  have hnano : nanoOf instant / 10 ^ 3 = nanoOf other / 10 ^ 3 := by
    simp only [micros, nanoOf] at *
    omega
  rw [rfc, rfc, hsecond, fractionText, fractionText, if_neg (by decide), if_neg (by decide)]
  exact congrArg (fun nano => secondText (secondOf other) ++ '.' :: decimal 6 nano ++ ['Z']) hnano

/-- The texts of instants are in the order of their microseconds. -/
theorem rfc_le_iff {instant later : DateTime} (hyear : FourDigitYear instant)
    (hyear' : FourDigitYear later) : rfc instant ≤ rfc later ↔ micros instant ≤ micros later := by
  constructor
  · intro hle
    by_contra hlt
    exact absurd (rfc_lt hyear' hyear (Int.not_le.mp hlt)) (not_lt.mpr hle)
  · intro hle
    rcases Int.lt_or_eq_of_le hle with hlt | heq
    · exact le_of_lt (rfc_lt hyear hyear' hlt)
    · exact le_of_eq (rfc_eq heq)

theorem nil_lt_rfc (instant : DateTime) : [] < rfc instant := by
  have hne : rfc instant ≠ [] := List.append_ne_nil_of_right_ne_nil _ (List.cons_ne_nil _ _)
  obtain ⟨c, rest, hcons⟩ := List.exists_cons_of_ne_nil hne
  rw [hcons]
  exact List.nil_lt_cons c rest

structure SearchQuery where
  text : Text
  notebookId : Option Uuid
  isTodo : Option Bool
  todoOpen : Option Bool
  isStarred : Option Bool
  isPinned : Option Bool
  dueAfter : Option DateTime
  dueBefore : Option DateTime
  updatedAfter : Option DateTime
  updatedBefore : Option DateTime
  limit : Nat
deriving DecidableEq

def maxLimit : Nat := 500

def splitWhitespace (text : Text) : List Text := Tokens.tokens LinkPatterns.isSpace text

def ftsMatch (text : Text) : Option Text :=
  let terms := (splitWhitespace text).map fun term =>
    quoteMark :: (term.flatMap fun c => if c = quoteMark then [quoteMark, quoteMark] else [c]) ++
      [quoteMark, '*']
  if terms.isEmpty then none else some ([' '].intercalate terms)

namespace SearchQuery

variable (query : SearchQuery)

/-- The conditions on the columns of a row. -/
def conds : List (Document → Bool) :=
  (query.notebookId.map fun id document => decide (document.notebookId = id)).toList ++
    (query.isTodo.map fun flag document => decide (document.isTodo = flag)).toList ++
    (query.todoOpen.map fun isOpen document => decide (document.isCompleted = !isOpen)).toList ++
    (query.isStarred.map fun flag document => decide (document.isStarred = flag)).toList ++
    (query.isPinned.map fun flag document => decide (document.isPinned = flag)).toList ++
    (query.dueAfter.map fun instant document => decide (rfc instant ≤ document.todoDue)).toList ++
    (query.dueBefore.map fun instant document =>
      decide (document.todoDue ≤ rfc instant) && decide (document.todoDue ≠ [])).toList ++
    (query.updatedAfter.map fun instant document =>
      decide (rfc instant ≤ document.updatedAt)).toList ++
    (query.updatedBefore.map fun instant document =>
      decide (document.updatedAt ≤ rfc instant)).toList

/-- The clause `WHERE`, but for the phrases. -/
def holds (document : Document) : Bool := query.conds.all fun cond => cond document

def clampedLimit : Nat := max 1 (min query.limit maxLimit)

end SearchQuery

/-- What the full-text table does by itself: which rows have all the phrases, the order of
their rank, and the order of their updates, where rows of one text come in any order. -/
structure NoteFts where
  found : List Phrase → Document → Bool
  byRank : List Phrase → List Document → List Document
  byRank_perm : ∀ phrases rows, (byRank phrases rows).Perm rows
  latestFirst : List Document → List Document
  latestFirst_perm : ∀ rows, (latestFirst rows).Perm rows
  latestFirst_sorted : ∀ rows,
    (latestFirst rows).Pairwise fun document later => later.updatedAt ≤ document.updatedAt

namespace SearchIndex

variable (fts : NoteFts)

/-- The first rows that a query asks for; nothing if the table refuses its text. -/
def queryRows (query : SearchQuery) (index : SearchIndex) : Option (List Document) :=
  match ftsMatch query.text with
  | none => some ((fts.latestFirst (index.filter query.holds)).take query.clampedLimit)
  | some matchExpr =>
      (readPhrases matchExpr).map fun phrases =>
        (fts.byRank phrases (index.filter fun document =>
          fts.found phrases document && query.holds document)).take query.clampedLimit

def query (query : SearchQuery) (index : SearchIndex) : Option (List Uuid) :=
  (queryRows fts query index).map fun rows => rows.map Document.noteId

end SearchIndex

variable {S Clock : Type}

structure SearchParams where
  q : Option Text
  notebook : Option Uuid
  todo : Option Bool
  isOpen : Option Bool
  starred : Option Bool
  pinned : Option Bool
  dueAfter : Option DateTime
  dueBefore : Option DateTime
  updatedAfter : Option DateTime
  updatedBefore : Option DateTime
  limit : Option Nat

def SearchParams.query (params : SearchParams) : SearchQuery where
  text := params.q.getD []
  notebookId := params.notebook
  isTodo := params.todo
  todoOpen := params.isOpen
  isStarred := params.starred
  isPinned := params.pinned
  dueAfter := params.dueAfter
  dueBefore := params.dueBefore
  updatedAfter := params.updatedAfter
  updatedBefore := params.updatedBefore
  limit := params.limit.getD 50

inductive SearchReply where
  | unavailable
  | failed
  | notes (notes : List Note)

/-- The note that the store has under the id of a row. -/
def Repositories.noteOf (store : Repositories S Clock) (inner : S) (id : Uuid) : Option Note :=
  match store.readNote id inner with
  | .ok note => some note
  | .error _ => none

def searchNotes (fts : NoteFts) (store : Repositories S Clock) (search : Option SearchIndex)
    (params : SearchParams) (inner : S) : SearchReply :=
  match search with
  | none => .unavailable
  | some index =>
      match index.query fts params.query with
      | none => .failed
      | some ids => .notes (ids.filterMap (store.noteOf inner))

theorem ftsMatch_eq (text : Text) :
    ftsMatch text =
      if splitWhitespace text = [] then none else some (listed (splitWhitespace text)) := by
  have hterm : (fun term : Text =>
      quoteMark :: (term.flatMap fun c => if c = quoteMark then [quoteMark, quoteMark] else [c]) ++
        [quoteMark, '*']) = written := by
    funext term
    have hdoubled : (fun c : Char => if c = quoteMark then [quoteMark, quoteMark] else [c]) =
        doubled := by
      funext c
      rw [doubled]
      split
      · next hquote => rw [hquote]
      · rfl
    rw [hdoubled, written]
  simp only [ftsMatch, hterm, List.isEmpty_iff, List.map_eq_nil_iff, listed]

/-- The phrases that a text asks for: each of its words, as the beginning of one. -/
def askedFor (text : Text) : List Phrase :=
  (splitWhitespace text).map fun term => ⟨term, true⟩

/-- The phrases that are read from what a text is made into are its words, whatever they
are; a text with a nul is refused. -/
theorem readPhrases_ftsMatch {text matchExpr : Text} (hmatch : ftsMatch text = some matchExpr) :
    readPhrases matchExpr = if nul ∈ text then none else some (askedFor text) := by
  rw [ftsMatch_eq] at hmatch
  split at hmatch
  · contradiction
  · obtain rfl := Option.some.inj hmatch
    have hnul : (∀ term ∈ splitWhitespace text, nul ∉ term) ↔ nul ∉ text :=
      Tokens.forall_tokens_not_mem_iff (by decide)
    rw [readPhrases_listed]
    by_cases hmem : nul ∈ text
    · rw [if_pos hmem, if_neg fun hterms => hnul.mp hterms hmem]
    · rw [if_neg hmem, if_pos (hnul.mpr hmem)]
      rfl

/-- A text asks for nothing if it is blank; otherwise its words are all that is read, and no
character of theirs is taken for syntax. -/
theorem ftsMatch_reads (text : Text) :
    (ftsMatch text).map readPhrases =
      if splitWhitespace text = [] then none
      else some (if nul ∈ text then none else some (askedFor text)) := by
  cases hmatch : ftsMatch text with
  | none =>
      rw [ftsMatch_eq] at hmatch
      split at hmatch
      · next hblank => rw [if_pos hblank, Option.map_none]
      · contradiction
  | some matchExpr =>
      have hread := readPhrases_ftsMatch hmatch
      rw [ftsMatch_eq] at hmatch
      split at hmatch
      · contradiction
      · next hwords => rw [if_neg hwords, Option.map_some, hread]

namespace SearchQuery

variable {query : SearchQuery} {note : Note}

/-- The instants that a query names have texts in their order. -/
def Writable (query : SearchQuery) : Prop :=
  ∀ bound ∈ [query.dueAfter, query.dueBefore, query.updatedAfter, query.updatedBefore],
    ∀ instant ∈ bound, FourDigitYear instant

/-- What a query asks of a note, but for its words. -/
@[mk_iff]
structure Wants (query : SearchQuery) (note : Note) : Prop where
  notebook : ∀ id ∈ query.notebookId, note.notebookId = id
  todo : ∀ flag ∈ query.isTodo, note.isTodo = flag
  completed : ∀ isOpen ∈ query.todoOpen, note.todoCompleted.isSome = !isOpen
  starred : ∀ flag ∈ query.isStarred, note.isStarred = flag
  pinned : ∀ flag ∈ query.isPinned, note.isPinned = flag
  dueAfter : ∀ instant ∈ query.dueAfter, ∃ due ∈ note.todoDue, micros instant ≤ micros due
  dueBefore : ∀ instant ∈ query.dueBefore, ∃ due ∈ note.todoDue, micros due ≤ micros instant
  updatedAfter : ∀ instant ∈ query.updatedAfter, micros instant ≤ micros note.updatedAt
  updatedBefore : ∀ instant ∈ query.updatedBefore, micros note.updatedAt ≤ micros instant

end SearchQuery

/-- The instants of a note that are compared have texts in their order. -/
def Note.Dated (note : Note) : Prop :=
  FourDigitYear note.updatedAt ∧ ∀ due ∈ note.todoDue, FourDigitYear due

theorem all_condition {A : Type} (option : Option A) (cond : A → Document → Bool)
    (document : Document) :
    ((option.map cond).toList.all fun holds => holds document) = true ↔
      ∀ value ∈ option, cond value document = true := by
  cases option <;> simp

theorem due_after_iff {note : Note} (hdated : note.Dated) {instant : DateTime}
    (hinstant : FourDigitYear instant) :
    rfc instant ≤ (note.todoDue.map rfc).getD [] ↔
      ∃ due ∈ note.todoDue, micros instant ≤ micros due := by
  cases hdue : note.todoDue with
  | none =>
      have hnil : ¬ rfc instant ≤ [] := not_le.mpr (nil_lt_rfc instant)
      simp [hnil]
  | some due =>
      simpa using rfc_le_iff hinstant (hdated.2 due hdue)

theorem due_before_iff {note : Note} (hdated : note.Dated) {instant : DateTime}
    (hinstant : FourDigitYear instant) :
    ((note.todoDue.map rfc).getD [] ≤ rfc instant ∧ (note.todoDue.map rfc).getD [] ≠ []) ↔
      ∃ due ∈ note.todoDue, micros due ≤ micros instant := by
  cases hdue : note.todoDue with
  | none => simp
  | some due =>
      simpa [(nil_lt_rfc due).ne'] using rfc_le_iff (hdated.2 due hdue) hinstant

/-- The conditions on the row of a note are what the query asks of the note. -/
theorem holds_iff {query : SearchQuery} {note : Note} (hquery : query.Writable)
    (hdated : note.Dated) (tags notebook : String) :
    query.holds (.of note tags notebook) = true ↔ query.Wants note := by
  simp only [SearchQuery.holds, SearchQuery.conds, List.all_append, Bool.and_eq_true,
    all_condition, SearchQuery.wants_iff, decide_eq_true_eq, Document.of, and_assoc]
  simp only [SearchQuery.Writable, List.forall_mem_cons] at hquery
  obtain ⟨hdueAfter, hdueBefore, hupdatedAfter, hupdatedBefore, -⟩ := hquery
  refine and_congr Iff.rfl (and_congr Iff.rfl (and_congr Iff.rfl (and_congr Iff.rfl
    (and_congr Iff.rfl (and_congr ?_ (and_congr ?_ (and_congr ?_ ?_)))))))
  · exact forall₂_congr fun instant hinstant => due_after_iff hdated (hdueAfter instant hinstant)
  · exact forall₂_congr fun instant hinstant =>
      due_before_iff hdated (hdueBefore instant hinstant)
  · exact forall₂_congr fun instant hinstant =>
      rfc_le_iff (hupdatedAfter instant hinstant) hdated.1
  · exact forall₂_congr fun instant hinstant =>
      rfc_le_iff hdated.1 (hupdatedBefore instant hinstant)

namespace SearchIndex

variable {fts : NoteFts} {query : SearchQuery} {index : SearchIndex}

theorem queryRows_nul (hnul : nul ∈ query.text) : queryRows fts query index = none := by
  have hmatch : ftsMatch query.text = some (listed (splitWhitespace query.text)) := by
    rw [ftsMatch_eq, if_neg]
    intro hblank
    have hblanks := Tokens.tokens_eq_nil_iff.mp hblank nul hnul
    exact absurd hblanks (by decide)
  rw [queryRows, hmatch]
  simp only [readPhrases_ftsMatch hmatch, if_pos hnul, Option.map_none]

/-- The rows that a query answers are the first ones that hold, by rank where it has words
and by the last update where it has none. -/
theorem queryRows_firstOf (fts : NoteFts) (hnul : nul ∉ query.text) (hindex : index.Nodup) :
    ∃ rows, queryRows fts query index = some rows ∧
      FirstOf
        (fun document => document ∈ index ∧ query.holds document = true ∧
          (askedFor query.text ≠ [] → fts.found (askedFor query.text) document = true))
        (fun document later => askedFor query.text = [] → later.updatedAt ≤ document.updatedAt)
        query.clampedLimit rows := by
  rw [queryRows]
  cases hmatch : ftsMatch query.text with
  | none =>
      have hnone : askedFor query.text = [] := by
        rw [ftsMatch_eq] at hmatch
        split at hmatch
        · next hblank => rw [askedFor, hblank, List.map_nil]
        · contradiction
      refine ⟨_, rfl, FirstOf.take (hindex.filter _) (fts.latestFirst_perm _) ?_ ?_ _⟩
      · exact (fts.latestFirst_sorted _).imp fun hle _ => hle
      · intro document
        simp [hnone]
  | some matchExpr =>
      have hsome : askedFor query.text ≠ [] := by
        rw [ftsMatch_eq] at hmatch
        split at hmatch
        · contradiction
        · next hwords => rwa [askedFor, ne_eq, List.map_eq_nil_iff]
      simp only [readPhrases_ftsMatch hmatch, if_neg hnul, Option.map_some]
      refine ⟨_, rfl, FirstOf.take (hindex.filter _) (fts.byRank_perm _ _) ?_ ?_ _⟩
      · exact List.pairwise_of_forall fun _ _ hnone => absurd hnone hsome
      · intro document
        simp [hsome, and_comm]

end SearchIndex

section Settled

variable {store : Repositories S Clock} {inner : S} {index : SearchIndex}

theorem nodup_of_rebuilt
    (hrows : ∀ id, SearchIndex.rowsOf id index = store.rebuilt inner id) : index.Nodup := by
  refine List.nodup_iff_count_le_one.mpr fun document => ?_
  have hcount : List.count document (SearchIndex.rowsOf document.noteId index) =
      List.count document index :=
    List.count_filter (by simp)
  rw [← hcount, hrows, Repositories.rebuilt]
  refine List.count_le_length.trans ?_
  rw [Option.length_toList]
  split <;> omega

theorem mem_index_iff (hrows : ∀ id, SearchIndex.rowsOf id index = store.rebuilt inner id)
    (document : Document) :
    document ∈ index ↔ ∃ note, store.liveNote inner document.noteId = some note ∧
      store.rowOf inner note = document := by
  have hmem : document ∈ SearchIndex.rowsOf document.noteId index ↔ document ∈ index := by
    simp [SearchIndex.rowsOf]
  rw [← hmem, hrows, Repositories.rebuilt, Option.mem_toList, Option.map_eq_some_iff]

theorem noteOf_of_live {id : Uuid} {note : Note} (hlive : store.liveNote inner id = some note) :
    store.noteOf inner id = some note := by
  simp only [Repositories.liveNote, look] at hlive
  split at hlive
  · next found hread =>
      simp only [Note.whenLive] at hlive
      split at hlive
      · obtain rfl := Option.some.inj hlive
        rw [Repositories.noteOf, hread]
      · contradiction
  · contradiction

/-- A live note that a query asks for, with what the table has of it. -/
def Asked (fts : NoteFts) (store : Repositories S Clock) (query : SearchQuery) (inner : S)
    (note : Note) : Prop :=
  store.liveNote inner note.id = some note ∧ query.Wants note ∧
    (askedFor query.text ≠ [] →
      fts.found (askedFor query.text) (store.rowOf inner note) = true)

/-- From an index as a rebuild leaves it the answer has the first of the live notes. -/
theorem searchNotes_rebuilt (fts : NoteFts) {params : SearchParams}
    (hrows : ∀ id, SearchIndex.rowsOf id index = store.rebuilt inner id)
    (hdated : ∀ note, store.liveNote inner note.id = some note → note.Dated)
    (hquery : params.query.Writable) (hnul : nul ∉ params.query.text) :
    ∃ notes, searchNotes fts store (some index) params inner = .notes notes ∧
      FirstOf (Asked fts store params.query inner)
        (fun note later => askedFor params.query.text = [] →
          micros later.updatedAt ≤ micros note.updatedAt)
        params.query.clampedLimit notes := by
  obtain ⟨rows, hanswer, hfirst⟩ :=
    SearchIndex.queryRows_firstOf fts hnul (nodup_of_rebuilt hrows)
  -- A row of the index is that of the note that is read under its id.
  have hrow : ∀ {document : Document}, document ∈ index →
      ∃ note, store.liveNote inner note.id = some note ∧ store.rowOf inner note = document ∧
        store.noteOf inner document.noteId = some note := by
    intro document hdocument
    obtain ⟨note, hlive, rfl⟩ := (mem_index_iff hrows document).mp hdocument
    exact ⟨note, hlive, rfl, noteOf_of_live hlive⟩
  have hread : ∀ {document : Document} {note : Note}, document ∈ index →
      store.noteOf inner document.noteId = some note →
        store.liveNote inner note.id = some note ∧ store.rowOf inner note = document := by
    intro document note hdocument hnote
    obtain ⟨found, hlive, hfound, hsame⟩ := hrow hdocument
    obtain rfl := Option.some.inj (hsame.symm.trans hnote)
    exact ⟨hlive, hfound⟩
  have hholds : ∀ {note : Note}, store.liveNote inner note.id = some note →
      (params.query.holds (store.rowOf inner note) = true ↔ params.query.Wants note) :=
    fun hlive => holds_iff hquery (hdated _ hlive) _ _
  refine ⟨rows.filterMap fun document => store.noteOf inner document.noteId, ?_, ?_⟩
  · rw [searchNotes, SearchIndex.query, hanswer, Option.map_some]
    simp only [List.filterMap_map]
    rfl
  · refine hfirst.filterMap ?_ ?_ ?_ ?_
    · rintro document ⟨hdocument, hwanted, hfound⟩
      obtain ⟨note, hlive, rfl, hnote⟩ := hrow hdocument
      exact ⟨note, hnote, hlive, (hholds hlive).mp hwanted, hfound⟩
    · rintro document other note ⟨hdocument, -⟩ ⟨hother, -⟩ hnote hsame
      exact (hread hdocument hnote).2.symm.trans (hread hother hsame).2
    · rintro note ⟨hlive, hwanted, hfound⟩
      refine ⟨store.rowOf inner note, ⟨?_, (hholds hlive).mpr hwanted, hfound⟩,
        noteOf_of_live hlive⟩
      exact (mem_index_iff hrows _).mpr ⟨note, hlive, rfl⟩
    · rintro document other note later ⟨hdocument, -⟩ ⟨hother, -⟩ hnote hlater hbefore hnone
      obtain ⟨hlive, rfl⟩ := hread hdocument hnote
      obtain ⟨hlive', rfl⟩ := hread hother hlater
      exact (rfc_le_iff (hdated later hlive').1 (hdated note hlive).1).mp (hbefore hnone)

end Settled

/-- In a run in which the maintenance task hears of each write that changes what a row has to
show, once it has nothing left to do, a search answers the first of the live notes of the
store that are asked for, up to the limit, and without words the last updated ones; a text
with a nul is refused. -/
theorem search_of_run (fts : NoteFts) {store : Repositories S Clock} {valid : S → Prop}
    {noteTags : Uuid → S → List Tag} {passes : Option Text → DateTime → Uuid → Bool}
    {allowed : Mutator → Prop} (hlaws : store.SearchLaws valid noteTags passes)
    (hkeeps : store.KeepsValid valid allowed) {inner : S} {steps : List (SearchStep Clock)}
    {final : Searching S} (hvalid : valid inner)
    (hmeets : MeetsAll (Searching.step store) (Searching.Meets store allowed)
      (Searching.start inner) steps)
    (hrun : runAll (Searching.step store) (Searching.start inner) steps = some final)
    (hdone : final.pending = [])
    (hdated : ∀ note, store.liveNote final.inner note.id = some note → note.Dated)
    {params : SearchParams} (hquery : params.query.Writable) :
    (nul ∈ params.query.text →
      searchNotes fts store (some final.index) params final.inner = .failed) ∧
    (nul ∉ params.query.text →
      ∃ notes, searchNotes fts store (some final.index) params final.inner = .notes notes ∧
        FirstOf (Asked fts store params.query final.inner)
          (fun note later => askedFor params.query.text = [] →
            micros later.updatedAt ≤ micros note.updatedAt)
          params.query.clampedLimit notes) := by
  have hfollows : Searching.Follows store valid passes final :=
    runAll_invariant_of_meetsAll (Searching.step store)
      (fun state action next hfollows hmeets hnext => hfollows.step hlaws hkeeps hmeets hnext)
      (Searching.follows_start hvalid) hmeets hrun
  have hrows : ∀ id, SearchIndex.rowsOf id final.index = store.rebuilt final.inner id := by
    intro id
    have htold := hfollows.told id
    rwa [hdone, lastTold_nil] at htold
  refine ⟨fun hnul => ?_, fun hnul => searchNotes_rebuilt fts hrows hdated hquery hnul⟩
  rw [searchNotes, SearchIndex.query, SearchIndex.queryRows_nul hnul]
  rfl

namespace SearchQueriesWitness

open LinkingIndexWitness SearchWitness

/-- A table that finds a phrase of one word where a word begins with it. -/
def fts : NoteFts where
  found phrases document :=
    let columns := [document.title, document.body, document.tags, document.notebook]
    let words := columns.flatMap fun column => splitWhitespace column.toList
    phrases.all fun phrase => words.any fun word => phrase.text.isPrefixOf word
  byRank _ rows := rows
  byRank_perm _ _ := List.Perm.refl _
  latestFirst rows := rows.mergeSort fun document later => later.updatedAt ≤ document.updatedAt
  latestFirst_perm rows := List.mergeSort_perm rows _
  latestFirst_sorted rows := by
    have htrans : ∀ first second third : Document,
        decide (second.updatedAt ≤ first.updatedAt) = true →
          decide (third.updatedAt ≤ second.updatedAt) = true →
            decide (third.updatedAt ≤ first.updatedAt) = true := by
      simpa using fun first second third hle hle' => le_trans hle' hle
    have htotal : ∀ first second : Document,
        (decide (second.updatedAt ≤ first.updatedAt) ||
          decide (first.updatedAt ≤ second.updatedAt)) = true := by
      simpa using fun first second => le_total _ _
    exact (List.pairwise_mergeSort htrans htotal rows).imp of_decide_eq_true

/-- The words begin the title of the tag and that of the notebook. -/
def params : SearchParams :=
  ⟨some "ne boo".toList, none, none, none, none, none, none, none, some 0, none, none⟩

def answered : SearchReply → Option (List Uuid)
  | .notes notes => some (notes.map Note.id)
  | _ => none

def datedRows (backend : LinkingBackend Db) : Bool :=
  backend.inner.notes.toList.all fun (_, row) =>
    decide (FourDigitYear row.updatedAt) && row.todoDue.all fun due => decide (FourDigitYear due)

theorem dated_of_rows {backend : LinkingBackend Db} (hrows : datedRows backend = true)
    (note : Note) (hlive : store.liveNote backend note.id = some note) : note.Dated := by
  have hread : backend.inner.readNote note.id = .ok note := by
    have hnote := noteOf_of_live hlive
    rw [Repositories.noteOf] at hnote
    split at hnote
    · next found hfound =>
        obtain rfl := Option.some.inj hnote
        exact hfound
    · contradiction
  obtain ⟨row, hrow, hnote⟩ := Db.readNote_ok_iff.mp hread
  have hmem := Std.ExtTreeMap.mem_toList_iff_getElem?_eq_some.mpr hrow
  have hdated := List.all_eq_true.mp hrows _ hmem
  simp only [Bool.and_eq_true, decide_eq_true_eq, Option.all_eq_true] at hdated
  rw [← hnote]
  exact hdated

theorem search_of_run_tagged :
    ∃ final, runAll (Searching.step store) (Searching.start stock) tagged = some final ∧
      answered (searchNotes fts store (some final.index) params final.inner) = some [1] ∧
      ∃ notes, searchNotes fts store (some final.index) params final.inner = .notes notes ∧
        FirstOf (Asked fts store params.query final.inner)
          (fun note later => askedFor params.query.text = [] →
            micros later.updatedAt ≤ micros note.updatedAt)
          params.query.clampedLimit notes := by
  have hrun : ((runAll (Searching.step store) (Searching.start stock) tagged).map fun final =>
      (final.pending.length, datedRows final.inner,
        answered (searchNotes fts store (some final.index) params final.inner))) =
      some (0, true, some [1]) := by
    decide +kernel
  obtain ⟨final, hfinal, hends⟩ := Option.map_eq_some_iff.mp hrun
  obtain ⟨hpending, hrows, hanswer⟩ : _ ∧ _ ∧ _ := by simpa only [Prod.mk.injEq] using hends
  refine ⟨final, hfinal, hanswer, ?_⟩
  have hyear : FourDigitYear 0 := by decide
  have hquery : params.query.Writable := by
    simpa [SearchQuery.Writable, SearchParams.query, params] using hyear
  exact (search_of_run fts (Db.searchLaws patterns) (Db.keepsValid patterns) hasUuids_stock
    meetsAll_tagged hfinal (List.eq_nil_of_length_eq_zero hpending) (dated_of_rows hrows)
    hquery).2 (by decide)

end SearchQueriesWitness

end Keeplin
