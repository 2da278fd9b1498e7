/-
Calls of the event layer that overlap.  A call commits when the backend below has
written, and publishes its change afterwards, so between the two another call may
do both.  A subscriber that lets the last change about a note decide has what the
store has if the calls about a note publish in the order in which they commit.
-/
import Keeplin.EventBackend
import Keeplin.LastTold
import Keeplin.LabelledRun

namespace Keeplin

open StorageBackend

def Note.whenLive (note : Note) : Option Note := if note.deletedAt = none then some note else none

namespace Change

/-- What a change says about a note: its content, or that it is gone. -/
def tells (id : Uuid) : Change → Option (Option Note)
  | .noteCreate note | .noteUpdate note => if note.id = id then some note.whenLive else none
  | .noteDelete other _ _ _ => if other = id then some none else none
  | _ => none

theorem tells_eq_none_iff {id : Uuid} {change : Change} :
    change.tells id = none ↔ change.entity ≠ .note id := by
  cases change <;> simp [tells, entity]

end Change

/-- What a subscriber knows of the notes after the changes: the last one about a
note decides. -/
def foldEvents (known : Uuid → Option Note) (events : List Change) (id : Uuid) : Option Note :=
  lastTold (Change.tells id) events (known id)

variable {S Clock : Type}

namespace Repositories

variable (store : Repositories S Clock)

/-- The live notes of the store. -/
def liveNote (inner : S) : Uuid → Option Note := look store.readNote Note.whenLive inner

/-- The laws of a store on its notes: a write is what is read afterwards, but that
an update may keep the instant of creation the store has, and what publishes no
change of a note leaves the notes. -/
structure NoteLaws (valid : S → Prop) : Prop where
  createNote : ∀ {inner clock note after stored}, valid inner →
    store.createNote clock note inner = (after, .ok stored) →
      store.readNote stored.id after = .ok stored ∧
        UnchangedBut store.readNote stored.id inner after
  updateNote : ∀ {inner clock note after stored}, valid inner →
    store.updateNote clock note inner = (after, .ok stored) →
      stored.createdAt = note.createdAt ∧ UnchangedBut store.readNote stored.id inner after ∧
        ∃ prior createdAt, store.readNote note.id inner = .ok prior ∧
          store.readNote stored.id after = .ok { stored with createdAt } ∧
          (note.createdAt = prior.createdAt → createdAt = note.createdAt)
  deleteNote : ∀ {inner clock id after}, valid inner →
    store.deleteNote clock id inner = (after, .ok ()) →
      (∀ found, store.readNote id after = .ok found → found.deletedAt ≠ none) ∧
        UnchangedBut store.readNote id inner after
  others : ∀ {inner clock now} {mutator : Mutator}, valid inner →
    (∀ change id, mutator = .applyChange change → change.entity ≠ .note id) →
    (∀ change ∈ (mutator.commit store clock now inner).2, ∀ id, change.entity ≠ .note id) →
      Unchanged store.readNote inner (mutator.commit store clock now inner).1

/-- Every mutator leads from a valid state to a valid one. -/
def KeepsValid (valid : S → Prop) (allowed : Mutator → Prop) : Prop :=
  ∀ {inner} clock now mutator, valid inner → allowed mutator →
    valid (mutator.commit store clock now inner).1

end Repositories

/-- Whether what a mutator publishes of a note is what can be read of it: an update
keeps the instant of creation, and no change of a note is applied. -/
def Mutator.Tells (store : Repositories S Clock) (inner : S) : Mutator → Prop
  | .updateNote note =>
      ∀ prior, store.readNote note.id inner = .ok prior → note.createdAt = prior.createdAt
  | .applyChange change => ∀ id, change.entity ≠ .note id
  | _ => True

section Commit

variable {store : Repositories S Clock} {valid : S → Prop} {inner : S}

theorem Mutator.mem_outcome {R : Type} {event : R → Option Change}
    {result : S × Except StorageError R} {change : Change}
    (hchange : change ∈ (Mutator.outcome event result).2) :
    ∃ stored, event stored = some change := by
  obtain ⟨stored, -, hevent⟩ := Option.bind_eq_some_iff.mp hchange
  exact ⟨stored, hevent⟩

/-- A mutator that writes a note, and the change it publishes. -/
structure Repositories.WritesNote (store : Repositories S Clock) (inner after : S)
    (mutator : Mutator) (change : Change) (id : Uuid) : Prop where
  entity : change.entity = .note id
  others : UnchangedBut store.readNote id inner after
  told : ∃ told createdAt, change.tells id = some told ∧
    store.liveNote after id = told.map (fun note => { note with createdAt }) ∧
    (mutator.Tells store inner → store.liveNote after id = told)

theorem liveNote_of_read {id : Uuid} {note : Note} (hread : store.readNote id inner = .ok note) :
    store.liveNote inner id = note.whenLive :=
  look_of_read hread

theorem whenLive_createdAt (note : Note) (createdAt : DateTime) :
    ({ note with createdAt } : Note).whenLive =
      note.whenLive.map fun note => { note with createdAt } := by
  simp only [Note.whenLive]
  split <;> rfl

namespace Repositories.NoteLaws

variable {clock : Clock} {now : DateTime} {mutator : Mutator}

theorem leaves (hlaws : store.NoteLaws valid) (hvalid : valid inner)
    (happly : ∀ change id, mutator = .applyChange change → change.entity ≠ .note id)
    (hevent : ∀ change ∈ (mutator.commit store clock now inner).2, ∀ id,
      change.entity ≠ .note id) :
    Unchanged store.readNote inner (mutator.commit store clock now inner).1 ∧
      ∀ change ∈ (mutator.commit store clock now inner).2, ∀ id, change.entity ≠ .note id :=
  ⟨hlaws.others hvalid happly hevent, hevent⟩

/-- A mutator leaves the notes and publishes nothing about them, or it writes the one
it publishes. -/
theorem commit_cases (hlaws : store.NoteLaws valid) (hvalid : valid inner)
    (happly : ∀ change id, mutator = .applyChange change → change.entity ≠ .note id) :
    (Unchanged store.readNote inner (mutator.commit store clock now inner).1 ∧
        ∀ change ∈ (mutator.commit store clock now inner).2, ∀ id, change.entity ≠ .note id) ∨
      ∃ change id, (mutator.commit store clock now inner).2 = some change ∧
        store.WritesNote inner (mutator.commit store clock now inner).1 mutator change id := by
  cases mutator with
  | createNote note =>
      cases hcall : store.createNote clock note inner with
      | mk after result =>
          cases result with
          | error failure =>
              refine .inl (hlaws.leaves hvalid happly fun change hchange => ?_)
              simp [Mutator.commit, Mutator.outcome, hcall, Except.toOption] at hchange
          | ok stored =>
              obtain ⟨hread, hunchanged⟩ := hlaws.createNote hvalid hcall
              simp only [Mutator.commit, Mutator.outcome, hcall, Except.toOption]
              refine .inr ⟨_, stored.id, rfl, rfl, hunchanged, stored.whenLive, stored.createdAt,
                if_pos rfl, ?_, fun _ => liveNote_of_read hread⟩
              exact (liveNote_of_read hread).trans (whenLive_createdAt stored stored.createdAt)
  | updateNote note =>
      cases hcall : store.updateNote clock note inner with
      | mk after result =>
          cases result with
          | error failure =>
              refine .inl (hlaws.leaves hvalid happly fun change hchange => ?_)
              simp [Mutator.commit, Mutator.outcome, hcall, Except.toOption] at hchange
          | ok stored =>
              obtain ⟨hcreated, hunchanged, prior, createdAt, hprior, hread, hkept⟩ :=
                hlaws.updateNote hvalid hcall
              simp only [Mutator.commit, Mutator.outcome, hcall, Except.toOption]
              refine .inr ⟨_, stored.id, rfl, rfl, hunchanged, stored.whenLive, createdAt,
                if_pos rfl, ?_, fun htells => ?_⟩
              · exact (liveNote_of_read hread).trans (whenLive_createdAt stored createdAt)
              · have hsame : createdAt = stored.createdAt := by
                  rw [hkept (htells prior hprior), hcreated]
                subst hsame
                exact liveNote_of_read hread
  | deleteNote other =>
      cases hcall : store.deleteNote clock other inner with
      | mk after result =>
          cases result with
          | error failure =>
              refine .inl (hlaws.leaves hvalid happly fun change hchange => ?_)
              simp [Mutator.commit, Mutator.outcome, hcall, Except.toOption] at hchange
          | ok done =>
              obtain ⟨hgone, hunchanged⟩ := hlaws.deleteNote hvalid hcall
              have hnone : store.liveNote after other = none := by
                cases hread : store.readNote other after with
                | error failure => rw [liveNote, look, hread]
                | ok found => rw [liveNote_of_read hread, Note.whenLive, if_neg (hgone found hread)]
              simp only [Mutator.commit, Mutator.outcome, hcall, Except.toOption]
              exact .inr ⟨_, other, rfl, rfl, hunchanged, none, 0,
                  if_pos rfl, hnone, fun _ => hnone⟩
  | applyChange change =>
      refine .inl (hlaws.leaves hvalid happly fun other hother => ?_)
      obtain ⟨stored, hevent⟩ := Mutator.mem_outcome hother
      contradiction
  | createNotebook notebook | updateNotebook notebook | deleteNotebook id | createTag tag
  | updateTag tag | deleteTag id | addNoteTag noteTag | removeNoteTag noteId tagId
  | createResource resource data | deleteResource id =>
      refine .inl (hlaws.leaves hvalid happly fun change hchange => ?_)
      obtain ⟨stored, hevent⟩ := Mutator.mem_outcome hchange
      cases hevent
      exact fun other hsame => by cases hsame

/-- The published change tells what has become of each note. -/
theorem liveNote_commit (hlaws : store.NoteLaws valid) (hvalid : valid inner)
    (htells : mutator.Tells store inner) (id : Uuid) :
    store.liveNote (mutator.commit store clock now inner).1 id =
      (((mutator.commit store clock now inner).2.bind (Change.tells id)).getD
        (store.liveNote inner id)) := by
  have happly : ∀ change id, mutator = .applyChange change → change.entity ≠ .note id := by
    intro change id happlied
    subst happlied
    exact htells id
  rcases hlaws.commit_cases hvalid happly with
    ⟨hsame, hevent⟩ | ⟨change, other, hpublished, hentity, hothers, told, -, htold, -, hafter⟩
  · rw [liveNote, look_of_unchanged hsame]
    cases hpublished : (mutator.commit store clock now inner).2 with
    | none => rfl
    | some change =>
        rw [Option.bind_some, Change.tells_eq_none_iff.mpr (hevent change hpublished id)]
        rfl
  · rw [hpublished, Option.bind_some]
    by_cases hid : other = id
    · subst hid
      rw [htold, hafter htells, Option.getD_some]
    · have hsilent : change.tells id = none := by
        rw [Change.tells_eq_none_iff, hentity]
        exact fun heq => hid (Entity.note.inj heq)
      rw [hsilent, Option.getD_none, liveNote, liveNote, look, look, hothers id (Ne.symm hid)]

end Repositories.NoteLaws

end Commit

/-- `held` are the changes of the calls that have committed and are still to
publish, in the order of the commits. -/
structure ChangeFeed (S : Type) where
  backend : EventBackend S
  held : List Change

inductive FeedStep (Clock : Type) where
  | commit (clock : Clock) (now : DateTime) (mutator : Mutator)
  | publish (position : Nat)

namespace ChangeFeed

variable (store : Repositories S Clock)

def step (feed : ChangeFeed S) : FeedStep Clock → Option (ChangeFeed S)
  | .commit clock now mutator =>
      let done := mutator.commit store clock now feed.backend.inner
      some ⟨{ feed.backend with inner := done.1 }, feed.held ++ done.2.toList⟩
  | .publish position =>
      feed.held[position]?.map fun change =>
        ⟨feed.backend.publish change, feed.held.eraseIdx position⟩

/-- A call that commits tells what it did, and one that publishes is not ahead of
a call that committed before it and has something else to tell of the same note. -/
def InOrder (feed : ChangeFeed S) : FeedStep Clock → Prop
  | .commit _ _ mutator => mutator.Tells store feed.backend.inner
  | .publish position =>
      ∀ change, feed.held[position]? = some change → ∀ i < position, ∀ earlier,
        feed.held[i]? = some earlier → ∀ id, change.tells id = none ∨ earlier.tells id = none ∨
          earlier.tells id = change.tells id

/-- With what is still to publish the changes tell the notes of the store. -/
def Tells (known : Uuid → Option Note) (feed : ChangeFeed S) : Prop :=
  ∀ id, foldEvents known (feed.backend.tx ++ feed.held) id = store.liveNote feed.backend.inner id

variable {store} {valid : S → Prop} {feed next : ChangeFeed S} {known : Uuid → Option Note}

theorem step_commit {clock : Clock} {now : DateTime} {mutator : Mutator} :
    feed.step store (.commit clock now mutator) =
      some ⟨⟨(mutator.commit store clock now feed.backend.inner).1, feed.backend.tx⟩,
        feed.held ++ (mutator.commit store clock now feed.backend.inner).2.toList⟩ :=
  rfl

theorem Tells.commit (hlaws : store.NoteLaws valid) (hvalid : valid feed.backend.inner)
    (htells : feed.Tells store known) {clock : Clock} {now : DateTime} {mutator : Mutator}
    (horder : feed.InOrder store (.commit clock now mutator))
    (hnext : feed.step store (.commit clock now mutator) = some next) : next.Tells store known := by
  rw [step_commit, Option.some.injEq] at hnext
  subst hnext
  intro id
  rw [hlaws.liveNote_commit hvalid horder id, ← htells id]
  simp only [foldEvents]
  rw [← List.append_assoc, lastTold_append]
  cases (mutator.commit store clock now feed.backend.inner).2 with
  | none => rfl
  | some change => rfl

theorem Tells.publish (htells : feed.Tells store known) {position : Nat}
    (horder : feed.InOrder store (.publish position : FeedStep Clock))
    (hnext : feed.step store (.publish position : FeedStep Clock) = some next) :
    next.Tells store known := by
  obtain ⟨change, hchange, rfl⟩ := Option.map_eq_some_iff.mp hnext
  intro id
  refine Eq.trans ?_ (htells id)
  simp only [foldEvents, EventBackend.publish, List.append_assoc, List.singleton_append]
  rw [lastTold_append, lastTold_append]
  exact lastTold_cons_eraseIdx hchange
    (fun i hi earlier hearlier => horder change hchange i hi earlier hearlier id) _

variable (store valid known) in
/-- What holds of a feed in all of a run. -/
structure Told (feed : ChangeFeed S) : Prop where
  valid : valid feed.backend.inner
  tells : feed.Tells store known

theorem Told.step (hlaws : store.NoteLaws valid) (hkeeps : store.KeepsValid valid fun _ => True)
    (htold : Told store valid known feed) {action : FeedStep Clock}
    (horder : feed.InOrder store action) (hnext : feed.step store action = some next) :
    Told store valid known next := by
  cases action with
  | commit clock now mutator =>
      refine ⟨?_, htold.tells.commit hlaws htold.valid horder hnext⟩
      rw [step_commit, Option.some.injEq] at hnext
      subst hnext
      exact hkeeps clock now mutator htold.valid trivial
  | publish position =>
      refine ⟨?_, htold.tells.publish horder hnext⟩
      obtain ⟨change, -, rfl⟩ := Option.map_eq_some_iff.mp hnext
      exact htold.valid

/-- In a run of overlapping calls in which the calls about a note publish in the
order in which they commit, the subscriber has each note as the store has it, once
no change of the note is still to publish. -/
theorem foldEvents_of_run (hlaws : store.NoteLaws valid)
    (hkeeps : store.KeepsValid valid fun _ => True) {start final : ChangeFeed S}
    {steps : List (FeedStep Clock)} (hvalid : valid start.backend.inner)
    (hquiet : start.backend.tx = [] ∧ start.held = [])
    (hmeets : MeetsAll (step store) (InOrder store) start steps)
    (hrun : runAll (step store) start steps = some final) (id : Uuid)
    (hdone : ∀ change ∈ final.held, change.entity ≠ .note id) :
    foldEvents (store.liveNote start.backend.inner) final.backend.tx id =
      store.liveNote final.backend.inner id := by
  have hstart : start.Tells store (store.liveNote start.backend.inner) := by
    intro id
    rw [hquiet.1, hquiet.2]
    rfl
  have htold : Told store valid (store.liveNote start.backend.inner) final :=
    runAll_invariant_of_meetsAll (step store)
      (fun feed action next htold horder hnext => htold.step hlaws hkeeps horder hnext)
      ⟨hvalid, hstart⟩ hmeets hrun
  rw [← htold.tells id]
  simp only [foldEvents]
  rw [lastTold_append]
  exact (lastTold_of_silent (fun change hchange =>
    Change.tells_eq_none_iff.mpr (hdone change hchange)) _).symm

end ChangeFeed

end Keeplin
