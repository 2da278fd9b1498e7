/-
What the search index has once the maintenance task has done all it has to.  For
each note the last task that touches its row decides, and that is right whatever
was written while the task ran, as long as each write that changes what a row has
to show publishes a change that touches the row.
-/
import Keeplin.SearchIndex

namespace Keeplin

open StorageBackend SearchIndex

variable {S Clock : Type}

namespace Repositories

variable (store : Repositories S Clock)

/-- The row that an index of the note writes. -/
def rowOf (inner : S) (note : Note) : Document :=
  .of note (store.tagNames note.id inner) (store.notebookName note.notebookId inner)

/-- The rows that a rebuild leaves of a note. -/
def rebuilt (inner : S) (id : Uuid) : List Document :=
  ((store.liveNote inner id).map (store.rowOf inner)).toList

/-- What a rebuild shows of a note, and where it comes in the listing. -/
def shown (inner : S) (id : Uuid) : List Document × Option DateTime :=
  (store.rebuilt inner id, (store.liveNote inner id).map Note.createdAt)

/-- The one document of a live note, with the titles of all its tags. -/
def documents (noteTags : Uuid → S → List Tag) (inner : S) (id : Uuid) : List Document :=
  ((store.liveNote inner id).map fun note =>
    .of note (joinTitles ((noteTags id inner).map Tag.title))
      (store.notebookName note.notebookId inner)).toList

end Repositories

/-- The laws of a store that the index relies on.  `noteTags` are the live tags of a
note in the order of their listing, and `passes` says which notes come after a
token in the listing of notes. -/
structure Repositories.SearchLaws (store : Repositories S Clock) (valid : S → Prop)
    (noteTags : Uuid → S → List Tag) (passes : Option Text → DateTime → Uuid → Bool) : Prop where
  notes : store.NoteLaws valid
  note_id : ∀ {inner id note}, valid inner → store.readNote id inner = .ok note → note.id = id
  passes_none : ∀ createdAt id, passes none createdAt id = true
  listNotes : ∀ {inner} token, valid inner → ∃ notes next,
    store.listNotes 0 token inner = .ok (notes, next) ∧
      (∀ note ∈ notes, store.liveNote inner note.id = some note) ∧
      ∀ id note, store.liveNote inner id = some note → (passes token note.createdAt id ↔
        note ∈ notes ∨ ∃ last, next = some last ∧ passes (some last) note.createdAt id)
  listNoteTags : ∀ {inner id}, valid inner → ∃ next,
    store.listNoteTags id 0 none inner =
      .ok ((noteTags id inner).take (effectivePageSize 0), next)
  notebooks : ∀ {inner clock now} {mutator : Mutator}, valid inner →
    (∀ id, mutator.entity ≠ .notebook id) →
      Unchanged store.readNotebook inner (mutator.commit store clock now inner).1
  tagged : ∀ {inner clock now id} {mutator : Mutator}, valid inner →
    (∀ tagId, mutator.entity ≠ .tag tagId) → (∀ tagId, mutator.entity ≠ .noteTag id tagId) →
      noteTags id (mutator.commit store clock now inner).1 = noteTags id inner
  refused : ∀ {inner clock now} {mutator : Mutator}, valid inner →
    (∀ change, mutator ≠ .applyChange change) →
    (mutator.commit store clock now inner).2 = none →
      Unchanged store.readNotebook inner (mutator.commit store clock now inner).1 ∧
        ∀ id, noteTags id (mutator.commit store clock now inner).1 = noteTags id inner

namespace SearchTask

variable (store : Repositories S Clock) (passes : Option Text → DateTime → Uuid → Bool)

/-- The rows of the note that the task leaves if it touches them, and if all it
reads is in the store as it is. -/
def tells (inner : S) (id : Uuid) : SearchTask → Option (List Document)
  | .applyChange change =>
      match change with
      | .noteCreate note | .noteUpdate note =>
          if note.id = id then some (note.whenLive.map (store.rowOf inner)).toList else none
      | .noteDelete other _ _ _ => if other = id then some [] else none
      | .noteTagAdd noteId _ _ _ _ | .noteTagRemove noteId _ _ _ _ =>
          if noteId = id then some (store.rebuilt inner id) else none
      | .notebookUpdate _ | .notebookDelete _ _ _ _ | .tagUpdate _ | .tagDelete _ _ _ _ =>
          some (store.rebuilt inner id)
      | _ => none
  | .indexNote note =>
      if note.id = id then some (note.whenLive.map (store.rowOf inner)).toList else none
  | .reindexId other => if other = id then some (store.rebuilt inner id) else none
  | .rebuild => some (store.rebuilt inner id)
  | .scan token =>
      if (store.liveNote inner id).any fun note => passes token note.createdAt id then
        some (store.rebuilt inner id)
      else none
  | .denormalize note => if note.id = id then some [store.rowOf inner note] else none
  | .nameNotebook note tags =>
      if note.id = id then
        some [.of note tags (store.notebookName note.notebookId inner)]
      else none
  | .upsert note tags notebook => if note.id = id then some [.of note tags notebook] else none
  | .remove other => if other = id then some [] else none

section Tells

variable {store passes} {inner : S} {id : Uuid}

theorem tells_indexNote {note : Note} : tells store passes inner id (.indexNote note) =
    if note.id = id then some (note.whenLive.map (store.rowOf inner)).toList else none := rfl

theorem tells_reindexId {other : Uuid} : tells store passes inner id (.reindexId other) =
    if other = id then some (store.rebuilt inner id) else none := rfl

theorem tells_rebuild : tells store passes inner id .rebuild = some (store.rebuilt inner id) := rfl

theorem tells_scan {token : Option Text} : tells store passes inner id (.scan token) =
    if (store.liveNote inner id).any fun note => passes token note.createdAt id then
      some (store.rebuilt inner id)
    else none := rfl

theorem tells_denormalize {note : Note} : tells store passes inner id (.denormalize note) =
    if note.id = id then some [store.rowOf inner note] else none := rfl

theorem tells_nameNotebook {note : Note} {tags : String} :
    tells store passes inner id (.nameNotebook note tags) =
      if note.id = id then some [.of note tags (store.notebookName note.notebookId inner)]
      else none := rfl

theorem tells_upsert {note : Note} {tags notebook : String} :
    tells store passes inner id (.upsert note tags notebook) =
      if note.id = id then some [.of note tags notebook] else none := rfl

theorem tells_remove {other : Uuid} : tells store passes inner id (.remove other) =
    if other = id then some [] else none := rfl

end Tells

end SearchTask

section Tasks

variable {store : Repositories S Clock} {valid : S → Prop} {noteTags : Uuid → S → List Tag}
  {passes : Option Text → DateTime → Uuid → Bool} {inner after : S} {id : Uuid}

theorem Repositories.SearchLaws.liveNote_id (hlaws : store.SearchLaws valid noteTags passes)
    (hvalid : valid inner) {note : Note} (hlive : store.liveNote inner id = some note) :
    note.id = id ∧ note.deletedAt = none := by
  simp only [Repositories.liveNote, look] at hlive
  split at hlive
  · next found hread =>
      simp only [Note.whenLive] at hlive
      split at hlive
      · next hdeleted =>
          obtain rfl := Option.some.inj hlive
          exact ⟨hlaws.note_id hvalid hread, hdeleted⟩
      · contradiction
  · contradiction

/-- The tasks that a page of a rebuild leaves. -/
def scanned (notes : List Note) (next : Option Text) : List SearchTask :=
  notes.map .denormalize ++ (next.map fun token => .scan (some token)).toList

theorem mem_scanned {notes : List Note} {next : Option Text} {task : SearchTask} :
    task ∈ scanned notes next ↔ (∃ note ∈ notes, .denormalize note = task) ∨
      ∃ last, next = some last ∧ .scan (some last) = task := by
  simp [scanned]

/-- A page of a rebuild tells what its notes and the rest of the scan tell. -/
theorem lastTold_scanned (hlaws : store.SearchLaws valid noteTags passes) (hvalid : valid inner)
    {token : Option Text} {notes : List Note} {next : Option Text}
    (hpage : store.listNotes 0 token inner = .ok (notes, next)) (rows : List Document) :
    lastTold (SearchTask.tells store passes inner id) (scanned notes next) rows =
      (SearchTask.tells store passes inner id (.scan token)).getD rows := by
  obtain ⟨notes', next', hpage', hlisted, hpasses⟩ := hlaws.listNotes token hvalid
  obtain ⟨rfl, rfl⟩ := Prod.mk.inj (Except.ok.inj (hpage.symm.trans hpage'))
  have hrow : ∀ note ∈ notes, note.id = id → store.rebuilt inner id = [store.rowOf inner note] :=
    fun note hnote hid => by simp [Repositories.rebuilt, ← hid, hlisted note hnote]
  by_cases hahead : (store.liveNote inner id).any (fun note => passes token note.createdAt id)
      = true
  · rw [SearchTask.tells_scan, if_pos hahead, Option.getD_some]
    obtain ⟨note, hlive, hpass⟩ := (Option.any_eq_true _ _).mp hahead
    obtain ⟨hid, -⟩ := hlaws.liveNote_id hvalid hlive
    refine lastTold_of_agree (fun task htask => ?_) ?_ rows
    · rcases mem_scanned.mp htask with ⟨listed, hlistedNote, rfl⟩ | ⟨last, -, rfl⟩
      · simp only [SearchTask.tells_denormalize]
        split
        · next hsame => exact .inr (by rw [hrow listed hlistedNote hsame])
        · exact .inl rfl
      · simp only [SearchTask.tells_scan]
        split
        · exact .inr rfl
        · exact .inl rfl
    · rcases (hpasses id note hlive).mp hpass with hnote | ⟨last, hlast, hpassLast⟩
      · exact ⟨_, mem_scanned.mpr (.inl ⟨note, hnote, rfl⟩), by simp [SearchTask.tells_denormalize, hid]⟩
      · refine ⟨_, mem_scanned.mpr (.inr ⟨last, hlast, rfl⟩), ?_⟩
        simp [SearchTask.tells_scan, hlive, hpassLast]
  · rw [SearchTask.tells_scan, if_neg hahead, Option.getD_none]
    -- A note that the page or the rest of the scan has would come after the token.
    refine lastTold_of_silent (fun task htask => ?_) rows
    rcases mem_scanned.mp htask with ⟨listed, hlistedNote, rfl⟩ | ⟨last, hlast, rfl⟩
    · simp only [SearchTask.tells_denormalize]
      refine if_neg fun hsame => hahead ?_
      subst hsame
      have hlive := hlisted listed hlistedNote
      rw [hlive, Option.any_some]
      exact (hpasses _ listed hlive).mpr (.inl hlistedNote)
    · simp only [SearchTask.tells_scan]
      refine if_neg fun hlater => hahead ?_
      obtain ⟨note, hlive, hpassLast⟩ := (Option.any_eq_true _ _).mp hlater
      rw [hlive, Option.any_some]
      exact (hpasses id note hlive).mpr (.inr ⟨last, hlast, hpassLast⟩)

theorem rebuilt_of_read {note : Note} (hread : store.readNote id inner = .ok note) :
    store.rebuilt inner id = (note.whenLive.map (store.rowOf inner)).toList := by
  rw [Repositories.rebuilt, Repositories.liveNote, look_of_read hread]

/-- What is left to do of a task tells what the task tells. -/
theorem lastTold_perform (hlaws : store.SearchLaws valid noteTags passes) (hvalid : valid inner)
    (index : SearchIndex) (task : SearchTask) :
    lastTold (SearchTask.tells store passes inner id) (task.perform store inner index).1
        (SearchIndex.rowsOf id (task.perform store inner index).2) =
      (task.tells store passes inner id).getD (SearchIndex.rowsOf id index) := by
  cases task with
  | applyChange change => cases change <;> rfl
  | indexNote note =>
      cases hdeleted : note.deletedAt with
      | none =>
          simp [SearchTask.perform, SearchTask.tells_indexNote, SearchTask.tells_denormalize,
            Note.whenLive, hdeleted]
      | some ts =>
          simp [SearchTask.perform, SearchTask.tells_indexNote, SearchTask.tells_remove,
            Note.whenLive, hdeleted]
  | reindexId other =>
      simp only [SearchTask.perform]
      split
      · next note hread =>
          have hid := hlaws.note_id hvalid hread
          simp only [lastTold_cons, lastTold_nil, SearchTask.tells_indexNote,
            SearchTask.tells_reindexId, hid]
          split
          · next hsame =>
              subst hsame
              rw [rebuilt_of_read hread]
          · rfl
      · next failure hread =>
          simp only [lastTold_cons, lastTold_nil, SearchTask.tells_remove,
            SearchTask.tells_reindexId]
          split
          · next hsame =>
              subst hsame
              simp [Repositories.rebuilt, Repositories.liveNote, look, hread]
          · rfl
  | rebuild =>
      simp only [SearchTask.perform, SearchTask.tells_rebuild, SearchTask.tells_scan,
        lastTold_cons, lastTold_nil]
      cases hlive : store.liveNote inner id with
      | none => simp [Repositories.rebuilt, hlive, SearchIndex.rowsOf]
      | some note => simp [hlaws.passes_none]
  | scan token =>
      obtain ⟨notes, next, hpage, -, -⟩ := hlaws.listNotes token hvalid
      simp only [SearchTask.perform, hpage]
      exact lastTold_scanned hlaws hvalid hpage (SearchIndex.rowsOf id index)
  | denormalize note => rfl
  | nameNotebook note tags => rfl
  | upsert note tags notebook =>
      simp only [SearchTask.perform, SearchTask.tells_upsert, lastTold_nil, rowsOf_upsert]
      split <;> rfl
  | remove other =>
      simp only [SearchTask.perform, SearchTask.tells_remove, lastTold_nil, rowsOf_remove]
      split <;> rfl

/-- The names in the row of a note are those that the store has. -/
theorem names_of_rebuilt (hlaws : store.SearchLaws valid noteTags passes) (hvalid : valid inner)
    {document : Document} (hrow : store.rebuilt inner id = [document]) :
    store.tagNames id inner = document.tags ∧
      store.notebookName document.notebookId inner = document.notebook := by
  cases hlive : store.liveNote inner id with
  | none => simp [Repositories.rebuilt, hlive] at hrow
  | some note =>
      obtain ⟨hid, -⟩ := hlaws.liveNote_id hvalid hlive
      simp only [Repositories.rebuilt, hlive, Option.map_some, Option.toList_some,
        List.cons.injEq, and_true] at hrow
      subst hrow
      exact ⟨congrArg (fun id => store.tagNames id inner) hid.symm, rfl⟩

/-- A note that has the row it should is indexed alike in a store that shows the same
of it. -/
theorem rowOf_of_shown (hlaws : store.SearchLaws valid noteTags passes) (hvalid : valid after)
    (hshown : store.shown after id = store.shown inner id) {note : Note} (hid : note.id = id)
    (hrow : store.rebuilt inner id = [store.rowOf inner note]) :
    store.rowOf after note = store.rowOf inner note := by
  have hafter : store.rebuilt after id = [store.rowOf inner note] :=
    (congrArg Prod.fst hshown).trans hrow
  obtain ⟨htags, hnotebook⟩ := names_of_rebuilt hlaws hvalid hafter
  have htagsNote : store.tagNames note.id after = store.tagNames note.id inner := by
    rw [hid, htags, ← hid]
    rfl
  have hnotebookNote : store.notebookName note.notebookId after =
      store.notebookName note.notebookId inner := hnotebook
  rw [Repositories.rowOf, Repositories.rowOf, htagsNote, hnotebookNote]

theorem tells_indexNote_of_shown (hlaws : store.SearchLaws valid noteTags passes)
    (hvalid : valid after) (hshown : store.shown after id = store.shown inner id) {note : Note}
    (hid : note.id = id)
    (hright : (note.whenLive.map (store.rowOf inner)).toList = store.rebuilt inner id) :
    (note.whenLive.map (store.rowOf after)).toList = store.rebuilt after id := by
  have hrebuilt : store.rebuilt after id = store.rebuilt inner id := congrArg Prod.fst hshown
  rw [hrebuilt, ← hright]
  cases hlive : note.whenLive with
  | none => rfl
  | some same =>
      have hsame : same = note := by
        simp only [Note.whenLive] at hlive
        split at hlive
        · exact (Option.some.inj hlive).symm
        · contradiction
      subst hsame
      rw [hlive] at hright
      rw [Option.map_some, Option.map_some, rowOf_of_shown hlaws hvalid hshown hid hright.symm]

/-- The scan passes a note alike in a store that shows the same of it. -/
theorem any_passes_of_shown (hshown : store.shown after id = store.shown inner id)
    (token : Option Text) :
    ((store.liveNote after id).any fun note => passes token note.createdAt id) =
      (store.liveNote inner id).any fun note => passes token note.createdAt id := by
  have hplaces : (store.liveNote after id).map Note.createdAt =
      (store.liveNote inner id).map Note.createdAt := congrArg Prod.snd hshown
  have hany : ∀ found : Option Note, (found.any fun note => passes token note.createdAt id) =
      (found.map Note.createdAt).any fun createdAt => passes token createdAt id := by
    intro found
    cases found <;> rfl
  rw [hany, hany, hplaces]

theorem tells_eq_none_of_shown (hshown : store.shown after id = store.shown inner id)
    (task : SearchTask) :
    task.tells store passes after id = none ↔ task.tells store passes inner id = none := by
  cases task with
  | applyChange change => cases change <;> simp [SearchTask.tells]
  | scan token => simp only [SearchTask.tells_scan, any_passes_of_shown hshown]; split <;> simp
  | indexNote note => simp [SearchTask.tells_indexNote]
  | reindexId other => simp [SearchTask.tells_reindexId]
  | rebuild => simp [SearchTask.tells_rebuild]
  | denormalize note => simp [SearchTask.tells_denormalize]
  | nameNotebook note tags => simp [SearchTask.tells_nameNotebook]
  | upsert note tags notebook | remove other => rfl

/-- A task that tells the right rows tells them in a store that shows the same of the
note. -/
theorem tells_of_shown (hlaws : store.SearchLaws valid noteTags passes) (hvalid : valid after)
    (hshown : store.shown after id = store.shown inner id) {task : SearchTask}
    (hright : task.tells store passes inner id = some (store.rebuilt inner id)) :
    task.tells store passes after id = some (store.rebuilt after id) := by
  have hrebuilt : store.rebuilt after id = store.rebuilt inner id := congrArg Prod.fst hshown
  cases task with
  | applyChange change =>
      cases change with
      | noteCreate note | noteUpdate note =>
          change SearchTask.tells store passes inner id (.indexNote note) = _ at hright
          change SearchTask.tells store passes after id (.indexNote note) = _
          simp only [SearchTask.tells_indexNote] at hright ⊢
          split at hright
          · next hid =>
              rw [if_pos hid, tells_indexNote_of_shown hlaws hvalid hshown hid
                (Option.some.inj hright)]
          · contradiction
      | noteDelete other deletedAt vv lastWriter => rw [hrebuilt]; exact hright
      | noteTagAdd noteId tagId updatedAt vv lastWriter
      | noteTagRemove noteId tagId updatedAt vv lastWriter =>
          change SearchTask.tells store passes inner id (.reindexId noteId) = _ at hright
          change SearchTask.tells store passes after id (.reindexId noteId) = _
          simp only [SearchTask.tells_reindexId] at hright ⊢
          split at hright
          · next hid => rw [if_pos hid]
          · contradiction
      | notebookUpdate | notebookDelete | tagUpdate | tagDelete => rfl
      | notebookCreate | tagCreate | resourceCreate | resourceDelete => contradiction
  | indexNote note =>
      simp only [SearchTask.tells_indexNote] at hright ⊢
      split at hright
      · next hid =>
          rw [if_pos hid, tells_indexNote_of_shown hlaws hvalid hshown hid
            (Option.some.inj hright)]
      · contradiction
  | reindexId other =>
      simp only [SearchTask.tells_reindexId] at hright ⊢
      split at hright
      · next hid => rw [if_pos hid]
      · contradiction
  | rebuild => rfl
  | scan token =>
      simp only [SearchTask.tells_scan] at hright ⊢
      rw [any_passes_of_shown hshown]
      split at hright
      · next hahead => rw [if_pos hahead]
      · contradiction
  | denormalize note =>
      simp only [SearchTask.tells_denormalize] at hright ⊢
      split at hright
      · next hid =>
          rw [if_pos hid, rowOf_of_shown hlaws hvalid hshown hid (Option.some.inj hright).symm,
            hrebuilt]
          exact hright
      · contradiction
  | nameNotebook note tags =>
      simp only [SearchTask.tells_nameNotebook] at hright ⊢
      split at hright
      · next hid =>
          have hrow := hrebuilt.trans (Option.some.inj hright).symm
          obtain ⟨-, hnotebook⟩ := names_of_rebuilt hlaws hvalid hrow
          have hnotebookNote : store.notebookName note.notebookId after =
              store.notebookName note.notebookId inner := hnotebook
          rw [if_pos hid, hnotebookNote, hrebuilt]
          exact hright
      · contradiction
  | upsert note tags notebook => rw [hrebuilt]; exact hright
  | remove other => rw [hrebuilt]; exact hright

/-- What a write to a note publishes tells the row of the note. -/
theorem tells_of_writesNote {mutator : Mutator} {change : Change}
    (hwrites : store.WritesNote inner after mutator change id) :
    (SearchTask.applyChange change).tells store passes after id =
      some (store.rebuilt after id) := by
  obtain ⟨told, createdAt, htold, hlive, -⟩ := hwrites.told
  cases change with
  | noteCreate note | noteUpdate note =>
      simp only [Change.tells] at htold
      split at htold
      · next hid =>
          obtain rfl := Option.some.inj htold
          simp only [SearchTask.tells, if_pos hid, Repositories.rebuilt, hlive, Option.map_map]
          rfl
      · contradiction
  | noteDelete other deletedAt vv lastWriter =>
      simp only [Change.tells] at htold
      split at htold
      · next hid =>
          obtain rfl := Option.some.inj htold
          simp [SearchTask.tells, hid, Repositories.rebuilt, hlive]
      · contradiction
  | notebookCreate | notebookUpdate | notebookDelete | tagCreate | tagUpdate | tagDelete
  | noteTagAdd | noteTagRemove | resourceCreate | resourceDelete => contradiction

/-- A change of a note tells nothing of the other notes. -/
theorem tells_of_entity_note {change : Change} {other : Uuid}
    (hentity : change.entity = .note other)
    (hne : other ≠ id) : (SearchTask.applyChange change).tells store passes inner id = none := by
  cases change with
  | noteCreate note | noteUpdate note =>
      obtain rfl := Entity.note.inj hentity
      exact if_neg hne
  | noteDelete same deletedAt vv lastWriter =>
      obtain rfl := Entity.note.inj hentity
      exact if_neg hne
  | notebookCreate | notebookUpdate | notebookDelete | tagCreate | tagUpdate | tagDelete
  | noteTagAdd | noteTagRemove | resourceCreate | resourceDelete => contradiction

theorem shown_of_reads (hlaws : store.SearchLaws valid noteTags passes) (hvalid : valid inner)
    (hafter : valid after) (hread : store.readNote id after = store.readNote id inner)
    (hnotebooks : Unchanged store.readNotebook inner after)
    (htags : noteTags id after = noteTags id inner) :
    store.shown after id = store.shown inner id := by
  have hlive : store.liveNote after id = store.liveNote inner id := by
    rw [Repositories.liveNote, Repositories.liveNote, look, look, hread]
  rw [Repositories.shown, Repositories.shown, Repositories.rebuilt, Repositories.rebuilt, hlive]
  cases hnote : store.liveNote inner id with
  | none => rfl
  | some note =>
      obtain ⟨hid, -⟩ := hlaws.liveNote_id hvalid hnote
      obtain ⟨next, hpage⟩ : ∃ next, store.listNoteTags id 0 none inner =
          .ok ((noteTags id inner).take (effectivePageSize 0), next) := hlaws.listNoteTags hvalid
      obtain ⟨next', hpage'⟩ : ∃ next, store.listNoteTags id 0 none after =
          .ok ((noteTags id after).take (effectivePageSize 0), next) := hlaws.listNoteTags hafter
      have htagNames : store.tagNames id after = store.tagNames id inner := by
        simp only [Repositories.tagNames, hpage, hpage', htags]
      have hnotebook : store.notebookName note.notebookId after =
          store.notebookName note.notebookId inner := by
        rw [Repositories.notebookName, Repositories.notebookName, hnotebooks]
      simp only [Option.map_some, Repositories.rowOf, hid, htagNames, hnotebook]

end Tasks

/-- The mutators of which the maintenance task hears what it needs.  Nothing is
published of an applied change, and a new notebook or tag is passed over. -/
def Mutator.heard : Mutator → Bool
  | .createNotebook _ | .createTag _ | .applyChange _ => false
  | _ => true

/-- The other mutators change nothing that the index has to show. -/
def Announced (store : Repositories S Clock) (clock : Clock) (now : DateTime) (inner : S)
    (mutator : Mutator) : Prop :=
  mutator.heard = false →
    ∀ id, store.shown (mutator.commit store clock now inner).1 id = store.shown inner id

section Commit

variable {store : Repositories S Clock} {valid : S → Prop} {noteTags : Uuid → S → List Tag}
  {passes : Option Text → DateTime → Uuid → Bool} {inner : S} {id : Uuid} {clock : Clock}
  {now : DateTime} {mutator : Mutator}

/-- What a mutator does for the row of a note: it publishes a change that tells the
row, or it leaves what there is to show of the note and publishes nothing about it. -/
def Heard (store : Repositories S Clock) (passes : Option Text → DateTime → Uuid → Bool)
    (inner : S) (id : Uuid) (done : S × Option Change) : Prop :=
  (∃ change, done.2 = some change ∧
      (SearchTask.applyChange change).tells store passes done.1 id =
        some (store.rebuilt done.1 id)) ∨
    (store.shown done.1 id = store.shown inner id ∧
      ∀ change ∈ done.2, (SearchTask.applyChange change).tells store passes done.1 id = none)

theorem heard_of_silent (hlaws : store.SearchLaws valid noteTags passes) (hvalid : valid inner)
    (hafter : valid (mutator.commit store clock now inner).1)
    (happly : ∀ change, mutator ≠ .applyChange change)
    (hsilent : (mutator.commit store clock now inner).2 = none) :
    Heard store passes inner id (mutator.commit store clock now inner) := by
  obtain ⟨hnotebooks, htags⟩ := hlaws.refused hvalid happly hsilent
  have hread : Unchanged store.readNote inner (mutator.commit store clock now inner).1 := by
    rcases hlaws.notes.commit_cases hvalid fun change _ happlied => absurd happlied (happly change)
      with ⟨hread, -⟩ | ⟨change, other, hpublished, -⟩
    · exact hread
    · rw [hsilent] at hpublished
      contradiction
  refine .inr ⟨shown_of_reads hlaws hvalid hafter (hread id) hnotebooks (htags id), ?_⟩
  intro change hchange
  rw [hsilent] at hchange
  contradiction

/-- A mutator of a note writes the one that it publishes. -/
theorem heard_of_note (hlaws : store.SearchLaws valid noteTags passes) (hvalid : valid inner)
    (hafter : valid (mutator.commit store clock now inner).1) {written other : Uuid}
    (hentity : mutator.entity = .note written) (happly : ∀ change, mutator ≠ .applyChange change)
    {change : Change} (hpublished : (mutator.commit store clock now inner).2 = some change)
    (hchange : change.entity = .note other) :
    Heard store passes inner id (mutator.commit store clock now inner) := by
  rcases hlaws.notes.commit_cases hvalid (fun change _ happlied => absurd happlied (happly change))
    with ⟨-, hnone⟩ | ⟨published, note, hsome, hwrites⟩
  · exact absurd hchange (hnone change hpublished other)
  · obtain rfl := Option.some.inj (hpublished.symm.trans hsome)
    by_cases hsame : note = id
    · subst hsame
      exact .inl ⟨change, hpublished, tells_of_writesNote hwrites⟩
    · refine .inr ⟨shown_of_reads hlaws hvalid hafter (hwrites.others id (Ne.symm hsame)) ?_ ?_, ?_⟩
      · exact hlaws.notebooks hvalid fun other hother => by rw [hentity] at hother; contradiction
      · exact hlaws.tagged hvalid (fun other hother => by rw [hentity] at hother; contradiction)
          fun other hother => by rw [hentity] at hother; contradiction
      · intro published' hpublished'
        obtain rfl := Option.some.inj (hpublished.symm.trans hpublished')
        exact tells_of_entity_note hwrites.entity hsame

/-- A mutator of something else leaves the notes. -/
theorem heard_of_other (hlaws : store.SearchLaws valid noteTags passes) (hvalid : valid inner)
    (hafter : valid (mutator.commit store clock now inner).1)
    (happly : ∀ change, mutator ≠ .applyChange change)
    {change : Change} (hpublished : (mutator.commit store clock now inner).2 = some change)
    (hchange : ∀ other, change.entity ≠ .note other)
    (hnotebooks : ∀ other, mutator.entity ≠ .notebook other)
    (htags : ∀ other, mutator.entity ≠ .tag other)
    (hassociation : ∀ other, mutator.entity ≠ .noteTag id other)
    (htells : (SearchTask.applyChange change).tells store passes
      (mutator.commit store clock now inner).1 id = none) :
    Heard store passes inner id (mutator.commit store clock now inner) := by
  have hread : Unchanged store.readNote inner (mutator.commit store clock now inner).1 := by
    rcases hlaws.notes.commit_cases hvalid fun change _ happlied => absurd happlied (happly change)
      with ⟨hread, -⟩ | ⟨published, note, hsome, hwrites⟩
    · exact hread
    · obtain rfl := Option.some.inj (hpublished.symm.trans hsome)
      exact absurd hwrites.entity (hchange note)
  refine .inr ⟨shown_of_reads hlaws hvalid hafter (hread id) (hlaws.notebooks hvalid hnotebooks)
    (hlaws.tagged hvalid htags hassociation), ?_⟩
  intro published hsome
  obtain rfl := Option.some.inj (hpublished.symm.trans hsome)
  exact htells

/-- A mutator of an association has the note of it indexed. -/
theorem heard_of_association (hlaws : store.SearchLaws valid noteTags passes) (hvalid : valid inner)
    (hafter : valid (mutator.commit store clock now inner).1)
    {change : Change} (hpublished : (mutator.commit store clock now inner).2 = some change)
    {noteId tagId : Uuid} (hentity : mutator.entity = .noteTag noteId tagId)
    (hchange : change.entity = .noteTag noteId tagId)
    (happly : ∀ change, mutator ≠ .applyChange change)
    (htells : ∀ inner, (SearchTask.applyChange change).tells store passes inner id =
      if noteId = id then some (store.rebuilt inner id) else none) :
    Heard store passes inner id (mutator.commit store clock now inner) := by
  by_cases hsame : noteId = id
  · exact .inl ⟨change, hpublished, (htells _).trans (if_pos hsame)⟩
  · refine heard_of_other hlaws hvalid hafter happly hpublished ?_ ?_ ?_ ?_
      ((htells _).trans (if_neg hsame))
    · intro other hother
      rw [hchange] at hother
      contradiction
    · intro other hother
      rw [hentity] at hother
      contradiction
    · intro other hother
      rw [hentity] at hother
      contradiction
    · intro other hother
      rw [hentity] at hother
      exact hsame (Entity.noteTag.inj hother).1

theorem heard_commit (hlaws : store.SearchLaws valid noteTags passes) (hvalid : valid inner)
    (hafter : valid (mutator.commit store clock now inner).1)
    (hannounced : Announced store clock now inner mutator) (id : Uuid) :
    Heard store passes inner id (mutator.commit store clock now inner) := by
  cases hpublished : (mutator.commit store clock now inner).2 with
  | none =>
      by_cases happly : ∃ change, mutator = .applyChange change
      · obtain ⟨change, rfl⟩ := happly
        refine .inr ⟨hannounced rfl id, fun published hchange => ?_⟩
        rw [hpublished] at hchange
        contradiction
      · exact heard_of_silent hlaws hvalid hafter
          (fun change happlied => happly ⟨change, happlied⟩) hpublished
  | some change =>
      cases mutator with
      | createNote note | updateNote note | deleteNote other =>
          obtain ⟨stored, hstored⟩ := Mutator.mem_outcome hpublished
          obtain rfl := Option.some.inj hstored
          refine heard_of_note hlaws hvalid hafter rfl (fun change happlied => ?_) hpublished rfl
          contradiction
      | updateNotebook notebook | deleteNotebook other | updateTag tag | deleteTag other =>
          obtain ⟨stored, hstored⟩ := Mutator.mem_outcome hpublished
          obtain rfl := Option.some.inj hstored
          exact .inl ⟨_, hpublished, rfl⟩
      | createNotebook notebook | createTag tag =>
          obtain ⟨stored, hstored⟩ := Mutator.mem_outcome hpublished
          obtain rfl := Option.some.inj hstored
          refine .inr ⟨hannounced rfl id, fun published hchange => ?_⟩
          obtain rfl := Option.some.inj (hpublished.symm.trans hchange)
          rfl
      | addNoteTag noteTag =>
          obtain ⟨stored, hstored⟩ := Mutator.mem_outcome hpublished
          obtain rfl := Option.some.inj hstored
          refine heard_of_association hlaws hvalid hafter hpublished rfl rfl ?_ fun inner => rfl
          intro change happlied
          contradiction
      | removeNoteTag noteId tagId =>
          obtain ⟨stored, hstored⟩ := Mutator.mem_outcome hpublished
          obtain rfl := Option.some.inj hstored
          refine heard_of_association hlaws hvalid hafter hpublished rfl rfl ?_ fun inner => rfl
          intro change happlied
          contradiction
      | createResource resource data | deleteResource other =>
          obtain ⟨stored, hstored⟩ := Mutator.mem_outcome hpublished
          obtain rfl := Option.some.inj hstored
          refine heard_of_other hlaws hvalid hafter ?_ hpublished ?_ ?_ ?_ ?_ rfl
          all_goals
            intro other hother
            contradiction
      | applyChange change =>
          obtain ⟨stored, hstored⟩ := Mutator.mem_outcome hpublished
          contradiction

end Commit

theorem joinTitles_append {first second : List String} (hfirst : first ≠ [])
    (hsecond : second ≠ []) :
    joinTitles (first ++ second) = joinTitles first ++ " " ++ joinTitles second := by
  induction first with
  | nil => contradiction
  | cons title rest ih =>
      cases rest with
      | nil =>
          obtain ⟨next, tail, rfl⟩ := List.exists_cons_of_ne_nil hsecond
          rfl
      | cons next tail =>
          have hrest := ih (List.cons_ne_nil next tail)
          simp only [List.cons_append, joinTitles] at hrest ⊢
          rw [hrest]
          simp only [String.append_assoc]

/-- The titles of a first page are not those of all the tags, if there are more. -/
theorem joinTitles_take_ne {titles : List String} {count : Nat} (hpos : 0 < count)
    (hmore : count < titles.length) : joinTitles (titles.take count) ≠ joinTitles titles := by
  have hfirst : titles.take count ≠ [] := by
    rw [← List.length_pos_iff, List.length_take]
    omega
  have hsecond : titles.drop count ≠ [] := by
    rw [← List.length_pos_iff, List.length_drop]
    omega
  intro hsame
  have hwhole : joinTitles titles =
      joinTitles (titles.take count) ++ " " ++ joinTitles (titles.drop count) := by
    rw [← joinTitles_append hfirst hsecond, List.take_append_drop]
  have hlength := congrArg String.length (hsame.trans hwhole)
  simp only [String.length_append] at hlength
  have hspace : " ".length = 1 := rfl
  omega

section Runs

variable {store : Repositories S Clock} {valid : S → Prop} {noteTags : Uuid → S → List Tag}
  {passes : Option Text → DateTime → Uuid → Bool} {allowed : Mutator → Prop}

/-- A rebuild leaves the document of a note with all its tags just if they are on
the first page. -/
theorem rebuilt_eq_documents_iff (hlaws : store.SearchLaws valid noteTags passes) {inner : S}
    (hvalid : valid inner) (id : Uuid) :
    store.rebuilt inner id = store.documents noteTags inner id ↔
      ∀ note, store.liveNote inner id = some note →
        (noteTags id inner).length ≤ effectivePageSize 0 := by
  rw [Repositories.rebuilt, Repositories.documents]
  cases hlive : store.liveNote inner id with
  | none => simp
  | some note =>
      obtain ⟨hid, -⟩ := hlaws.liveNote_id hvalid hlive
      obtain ⟨next, hpage⟩ : ∃ next, store.listNoteTags id 0 none inner =
          .ok ((noteTags id inner).take (effectivePageSize 0), next) := hlaws.listNoteTags hvalid
      have hnames : store.tagNames note.id inner =
          joinTitles (((noteTags id inner).map Tag.title).take (effectivePageSize 0)) := by
        simp only [Repositories.tagNames, hid, hpage, List.map_take]
      simp only [Option.map_some, Option.toList_some, List.cons.injEq, and_true,
        Option.some.injEq, forall_eq', Repositories.rowOf, hnames]
      constructor
      · intro hsame
        by_contra hmore
        refine joinTitles_take_ne (effectivePageSize_pos 0) ?_ (congrArg Document.tags hsame)
        rw [List.length_map]
        exact Nat.lt_of_not_le hmore
      · intro hfew
        rw [List.take_of_length_le]
        rw [List.length_map]
        exact hfew

namespace Searching

variable {state next : Searching S}

/-- A step of the task, or a mutator that the task hears of. -/
def Meets (store : Repositories S Clock) (allowed : Mutator → Prop) (state : Searching S) :
    SearchStep Clock → Prop
  | .mutate clock now mutator => allowed mutator ∧ Announced store clock now state.inner mutator
  | .maintain => True

variable (store valid passes) in
/-- The last of the pending tasks that touches a row leaves it as a rebuild would. -/
structure Follows (state : Searching S) : Prop where
  valid : valid state.inner
  told : ∀ id, lastTold (SearchTask.tells store passes state.inner id) state.pending
    (SearchIndex.rowsOf id state.index) = store.rebuilt state.inner id

theorem Follows.mutate (hlaws : store.SearchLaws valid noteTags passes)
    (hkeeps : store.KeepsValid valid allowed) (hfollows : Follows store valid passes state)
    {clock : Clock} {now : DateTime} {mutator : Mutator}
    (hmeets : state.Meets store allowed (.mutate clock now mutator))
    (hnext : state.step store (.mutate clock now mutator) = some next) :
    Follows store valid passes next := by
  have hafter : valid (mutator.commit store clock now state.inner).1 :=
    hkeeps clock now mutator hfollows.valid hmeets.1
  obtain rfl := Option.some.inj hnext
  refine ⟨hafter, fun id => ?_⟩
  rcases heard_commit hlaws hfollows.valid hafter hmeets.2 id with
    ⟨change, hchange, htells⟩ | ⟨hshown, hsilent⟩
  · -- The last task tells the row, whatever the others do.
    rw [hchange, Option.map_some, Option.toList_some, lastTold_concat, htells, Option.getD_some]
  · rw [lastTold_append]
    have hpending : lastTold (SearchTask.tells store passes
        (mutator.commit store clock now state.inner).1 id) state.pending
        (SearchIndex.rowsOf id state.index) =
          store.rebuilt state.inner id := by
      refine lastTold_eq_of_eq (fun task _ => tells_eq_none_of_shown hshown task) ?_
        (hfollows.told id)
      intro task _ hright
      have hrebuilt : store.rebuilt (mutator.commit store clock now state.inner).1 id =
          store.rebuilt state.inner id := congrArg Prod.fst hshown
      rw [← hrebuilt]
      exact tells_of_shown hlaws hafter hshown hright
    rw [hpending]
    refine (lastTold_of_silent (fun task htask => ?_) _).trans (congrArg Prod.fst hshown).symm
    obtain ⟨change, hchange, rfl⟩ := by simpa using htask
    exact hsilent change hchange

theorem Follows.maintain (hlaws : store.SearchLaws valid noteTags passes)
    (hfollows : Follows store valid passes state)
    (hnext : state.step store (.maintain : SearchStep Clock) = some next) :
    Follows store valid passes next := by
  simp only [Searching.step] at hnext
  split at hnext
  · contradiction
  · next task rest hpending =>
      obtain rfl := Option.some.inj hnext
      refine ⟨hfollows.valid, fun id => ?_⟩
      rw [lastTold_append, lastTold_perform hlaws hfollows.valid, ← lastTold_cons, ← hpending]
      exact hfollows.told id

theorem Follows.step (hlaws : store.SearchLaws valid noteTags passes)
    (hkeeps : store.KeepsValid valid allowed) (hfollows : Follows store valid passes state)
    {action : SearchStep Clock} (hmeets : state.Meets store allowed action)
    (hnext : state.step store action = some next) : Follows store valid passes next := by
  cases action with
  | mutate clock now mutator => exact hfollows.mutate hlaws hkeeps hmeets hnext
  | maintain => exact hfollows.maintain hlaws hnext

theorem follows_start {inner : S} (hvalid : valid inner) :
    Follows store valid passes (start inner) :=
  ⟨hvalid, fun _ => rfl⟩

/-- In a run in which the task hears of each write that changes what it has to show,
the index has the documents of the live notes once there is nothing left to do, just
if no live note has more tags than a page. -/
theorem documents_of_run (hlaws : store.SearchLaws valid noteTags passes)
    (hkeeps : store.KeepsValid valid allowed) {inner : S} {steps : List (SearchStep Clock)}
    {final : Searching S} (hvalid : valid inner)
    (hmeets : MeetsAll (step store) (Meets store allowed) (start inner) steps)
    (hrun : runAll (step store) (start inner) steps = some final) (hdone : final.pending = []) :
    (∀ id, SearchIndex.rowsOf id final.index = store.documents noteTags final.inner id) ↔
      ∀ id note, store.liveNote final.inner id = some note →
        (noteTags id final.inner).length ≤ effectivePageSize 0 := by
  have hfollows : Follows store valid passes final :=
    runAll_invariant_of_meetsAll (step store)
      (fun state action next hfollows hmeets hnext => hfollows.step hlaws hkeeps hmeets hnext)
      (follows_start hvalid) hmeets hrun
  have hrows : ∀ id, SearchIndex.rowsOf id final.index = store.rebuilt final.inner id := by
    intro id
    have htold := hfollows.told id
    rwa [hdone, lastTold_nil] at htold
  refine forall_congr' fun id => ?_
  rw [hrows id]
  exact rebuilt_eq_documents_iff hlaws hfollows.valid id

end Searching

end Runs

end Keeplin
