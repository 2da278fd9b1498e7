/-
Edits of different fields of one note.  Each reads the note and writes it back whole,
so a write takes what others changed since its read with it.  Where every write
finds the note it read, all the edits are in the note at the end.
-/
import Keeplin.NoteEdits

namespace Keeplin

/-- The fields of a note the edits are about. -/
inductive NoteField where
  | isStarred
  | isPinned
  | sortKey
  | aliases
  | manualLinks
deriving DecidableEq

/-- The other note has the field of this one; an Inbox note loses its alias. -/
def NoteField.Kept (note other : Note) : NoteField → Prop
  | .isStarred => other.isStarred = note.isStarred
  | .isPinned => other.isPinned = note.isPinned
  | .sortKey => other.sortKey = note.sortKey
  | .aliases => other.notebookId = note.notebookId ∧
      (other.alias = note.alias ∨ (isInbox note.notebookId = true ∧ other.alias = none))
  | .manualLinks => manualRaws other.links = manualRaws note.links

theorem NoteField.Kept.refl (field : NoteField) (note : Note) : field.Kept note note := by
  cases field with
  | aliases => exact ⟨rfl, .inl rfl⟩
  | isStarred | isPinned | sortKey | manualLinks => rfl

theorem NoteField.Kept.trans {field : NoteField} {first second third : Note}
    (hfirst : field.Kept first second) (hsecond : field.Kept second third) :
    field.Kept first third := by
  cases field with
  | aliases =>
      obtain ⟨hnotebook, halias⟩ := hfirst
      obtain ⟨hnotebook', halias'⟩ := hsecond
      refine ⟨hnotebook'.trans hnotebook, ?_⟩
      rcases halias' with halias' | ⟨hinbox, hnone⟩
      · rcases halias with halias | ⟨hinbox, hnone⟩
        · exact .inl (halias'.trans halias)
        · exact .inr ⟨hinbox, halias'.trans hnone⟩
      · rw [hnotebook] at hinbox
        exact .inr ⟨hinbox, hnone⟩
  | isStarred | isPinned | sortKey | manualLinks => exact Eq.trans hsecond hfirst

namespace NoteEdit

/-- The fields an edit changes, for those that change a field of the note. -/
def fields : NoteEdit → List NoteField
  | .setStarred _ => [.isStarred]
  | .pinNote | .unpinNote => [.isPinned, .sortKey]
  | .reorderNote _ => [.sortKey]
  | .setNoteAlias _ => [.aliases]
  | .addManualLink _ => [.manualLinks]
  | .updateNote _ _ | .removeLink _ | .resequence _ => []

/-- The final note shows what the edit of the starting note did; `result` is what it
returned, which tells the key a pin chose. -/
def Shows (start result final : Note) : NoteEdit → Prop
  | .setStarred starred => final.isStarred = starred
  | .pinNote => final.isPinned = true ∧ final.sortKey = result.sortKey
  | .unpinNote => final.isPinned = false ∧ final.sortKey = result.sortKey
  | .reorderNote newSortKey => final.sortKey = newSortKey
  | .setNoteAlias alias_ => final.alias = alias_ ∧
      (alias_.isSome → isInbox final.notebookId = false)
  | .addManualLink raw => manualRaws final.links = manualRaws start.links ++ [raw]
  | .updateNote _ _ | .removeLink _ | .resequence _ => True

/-- The note an edit writes is the one it read with its own fields changed. -/
structure Written (edit : NoteEdit) (start read note : Note) : Prop where
  id : note.id = read.id
  kept : ∀ field, field ∉ edit.fields → field.Kept read note
  shows : edit.Shows start note note

theorem Shows.of_kept {edit : NoteEdit} {start result note final : Note}
    (hkept : ∀ field ∈ edit.fields, field.Kept note final)
    (hshows : edit.Shows start result note) : edit.Shows start result final := by
  cases edit with
  | setStarred starred => exact Eq.trans (hkept .isStarred (by simp [fields])) hshows
  | pinNote | unpinNote =>
      exact ⟨Eq.trans (hkept .isPinned (by simp [fields])) hshows.1,
        Eq.trans (hkept .sortKey (by simp [fields])) hshows.2⟩
  | reorderNote newSortKey => exact Eq.trans (hkept .sortKey (by simp [fields])) hshows
  | setNoteAlias alias_ =>
      obtain ⟨hnotebook, halias⟩ := hkept .aliases (by simp [fields])
      obtain ⟨hshown, hplace⟩ := hshows
      rw [← hnotebook] at hplace
      refine ⟨?_, hplace⟩
      rcases halias with halias | ⟨hinbox, hnone⟩
      · exact halias.trans hshown
      · cases alias_ with
        | none => exact hnone
        | some alias_ =>
            have houtside := hplace rfl
            rw [hnotebook, hinbox] at houtside
            contradiction
  | addManualLink raw => exact Eq.trans (hkept .manualLinks (by simp [fields])) hshows
  | updateNote note now | removeLink index | resequence next => trivial

/-- What was stored of a note that was written shows the edit. -/
theorem Written.shows_stored {edit : NoteEdit} {start read note stored found : Note}
    (hwritten : edit.Written start read note)
    (hstored : ∀ field : NoteField, field.Kept note stored)
    (hfound : ∀ field : NoteField, field.Kept note found) : edit.Shows start stored found := by
  refine Shows.of_kept (fun field _ => hfound field) ?_
  have hshows := hwritten.shows
  cases edit with
  | pinNote | unpinNote => exact ⟨hshows.1, (hstored .sortKey).symm⟩
  | setStarred starred | reorderNote newSortKey | setNoteAlias alias_ | addManualLink raw =>
      exact hshows
  | updateNote note now | removeLink index | resequence next => trivial

/-- The references of links that were made by hand. -/
theorem manualRaws_fromRaw {raw : String} (hraw : (NoteLink.fromRaw raw .manual).isSome) :
    manualRaws (NoteLink.fromRaw raw .manual).toList = [raw] := by
  obtain ⟨link, hlink⟩ := Option.isSome_iff_exists.mp hraw
  obtain ⟨segments, -, rfl⟩ := Option.map_eq_some_iff.mp hlink
  rw [hlink]
  rfl

/-- How an edit of a field goes on from the note it read, which has the field as it
was at the start. -/
theorem checked_cases {edit : NoteEdit} {start read : Note} (hfields : edit.fields ≠ [])
    (hrefused : edit.refused = none) (hstart : ∀ field ∈ edit.fields, field.Kept start read) :
    (∃ failure, edit.checked read = .returns (.error failure)) ∨
      (edit.checked read = .returns (.ok read) ∧ edit.Shows start read read) ∨
      ((edit = .pinNote ∨ edit = .unpinNote) ∧ edit.checked read = .places read) ∨
      ∃ note, edit.checked read = .writes note ∧ edit.Written start read note := by
  cases edit with
  | updateNote note now | removeLink index | resequence next => exact absurd rfl hfields
  | pinNote =>
      simp only [checked]
      split
      · exact .inl ⟨_, rfl⟩
      · split
        · next hpinned => exact .inr (.inl ⟨rfl, hpinned, rfl⟩)
        · exact .inr (.inr (.inl ⟨.inl trivial, rfl⟩))
  | unpinNote =>
      simp only [checked]
      split
      · exact .inr (.inr (.inl ⟨.inr trivial, rfl⟩))
      · next hpinned => exact .inr (.inl ⟨rfl, Bool.eq_false_of_not_eq_true hpinned, rfl⟩)
  | setStarred starred =>
      simp only [checked]
      split
      · next hsame => exact .inr (.inl ⟨rfl, hsame⟩)
      · refine .inr (.inr (.inr ⟨_, rfl, rfl, fun field hfield => ?_, rfl⟩))
        cases field with
        | isStarred => exact absurd List.mem_cons_self hfield
        | aliases => exact ⟨rfl, .inl rfl⟩
        | isPinned | sortKey | manualLinks => rfl
  | reorderNote newSortKey =>
      simp only [checked]
      split
      · exact .inl ⟨_, rfl⟩
      · split
        · next hsame => exact .inr (.inl ⟨rfl, hsame⟩)
        · refine .inr (.inr (.inr ⟨_, rfl, rfl, fun field hfield => ?_, rfl⟩))
          cases field with
          | sortKey => exact absurd List.mem_cons_self hfield
          | aliases => exact ⟨rfl, .inl rfl⟩
          | isStarred | isPinned | manualLinks => rfl
  | setNoteAlias alias_ =>
      simp only [checked]
      split
      · exact .inl ⟨_, rfl⟩
      · next hallowed =>
          refine .inr (.inr (.inr ⟨_, rfl, rfl, fun field hfield => ?_, rfl, fun hsome => ?_⟩))
          · cases field with
            | aliases => exact absurd List.mem_cons_self hfield
            | isStarred | isPinned | sortKey | manualLinks => rfl
          · exact Bool.eq_false_of_not_eq_true fun hinbox => hallowed ⟨hsome, hinbox⟩
  | addManualLink raw =>
      refine .inr (.inr (.inr ⟨_, rfl, rfl, fun field hfield => ?_, ?_⟩))
      · cases field with
        | manualLinks => exact absurd List.mem_cons_self hfield
        | aliases => exact ⟨rfl, .inl rfl⟩
        | isStarred | isPinned | sortKey => rfl
      · have hraw : (NoteLink.fromRaw raw .manual).isSome := by
          simp only [refused, ite_eq_left_iff] at hrefused
          by_contra hnone
          cases hrefused hnone
        change manualRaws (read.links ++ (NoteLink.fromRaw raw .manual).toList) = _
        rw [manualRaws_append, manualRaws_fromRaw hraw, hstart .manualLinks (by simp [fields])]

/-- A pin or unpin writes the note it read, pinned or not at a key of its choice. -/
theorem placed_cases {edit : NoteEdit} {start read : Note} {profile : NotebookSortProfile}
    {resequenced : Except StorageError Unit} (hplaces : edit = .pinNote ∨ edit = .unpinNote) :
    (∃ failure, edit.placed profile resequenced read = .returns (.error failure)) ∨
      ∃ note, edit.placed profile resequenced read = .writes note ∧
        edit.Written start read note := by
  have hkept : ∀ (pinned : Bool) (key : Nat) (field : NoteField),
      field ∉ [NoteField.isPinned, NoteField.sortKey] →
        field.Kept read { read with isPinned := pinned, sortKey := key } := by
    intro pinned key field hfield
    cases field with
    | isPinned | sortKey => exact absurd (by simp) hfield
    | aliases => exact ⟨rfl, .inl rfl⟩
    | isStarred | manualLinks => rfl
  rcases hplaces with rfl | rfl
  · simp only [placed]
    split
    · exact .inl ⟨_, rfl⟩
    · exact .inr ⟨_, rfl, rfl, fun field hfield => hkept _ _ field hfield, rfl, rfl⟩
  · exact .inr ⟨_, rfl, rfl, fun field hfield => hkept _ _ field hfield, rfl, rfl⟩

end NoteEdit

/-- A write leaves the fields of its note as they are, in what is stored of it and in
what it returns. -/
structure NoteBackend.KeepsFields {S Clock : Type} (backend : NoteBackend S Clock)
    (valid : S → Prop) : Prop where
  note_id : ∀ {inner id note}, valid inner → backend.readNote id inner = .ok note → note.id = id
  updateNote : ∀ {inner clock note after result}, valid inner →
    backend.updateNote clock note inner = (after, result) → valid after ∧
      match result with
      | .ok stored => (∀ field : NoteField, field.Kept note stored) ∧
          ∃ found, backend.readNote note.id after = .ok found ∧
            ∀ field : NoteField, field.Kept note found
      | .error _ => StorageBackend.Unchanged backend.readNote inner after

namespace EditPhase

def edit : EditPhase → NoteEdit
  | .begun _ edit | .placing edit _ _ | .writing edit _ _ | .returned edit _ => edit

/-- The fields of an edit that has not failed. -/
def fields : EditPhase → List NoteField
  | .returned _ (.error _) => []
  | .begun _ edit | .placing edit _ _ | .writing edit _ _ | .returned edit (.ok _) => edit.fields

/-- The fields an edit has still to write. -/
def pendingFields : EditPhase → List NoteField
  | .begun _ edit | .placing edit _ _ | .writing edit _ _ => edit.fields
  | .returned _ _ => []

def read? : EditPhase → Option Note
  | .placing _ read _ | .writing _ read _ => some read
  | .begun _ _ | .returned _ _ => none

/-- The edit is of a field of the note that is there at the start. -/
def OfField (start : Note) : EditPhase → Prop
  | .begun id edit => id = start.id ∧ edit.fields ≠ []
  | .placing edit read note =>
      (edit = .pinNote ∨ edit = .unpinNote) ∧ read.id = start.id ∧ note = read
  | .writing edit read note => read.id = start.id ∧ edit.Written start read note
  | .returned _ _ => True

theorem fields_of_pending {phase : EditPhase} {field : NoteField}
    (hfield : field ∈ phase.pendingFields) : field ∈ phase.fields := by
  cases phase with
  | returned edit result => cases hfield
  | begun id edit | placing edit read note | writing edit read note => exact hfield

/-- A step of an edit that writes nothing. -/
structure Turns (start current : Note) (phase next : EditPhase) : Prop where
  going : ∀ edit result, phase ≠ .returned edit result
  ofField : next.OfField start
  fields : ∀ field ∈ next.fields, field ∈ phase.fields
  pendingFields : ∀ field ∈ next.pendingFields, field ∈ phase.pendingFields
  reads : ∀ read, next.read? = some read → phase.read? = some read ∨ read = current
  shows : ∀ edit result, next = .returned edit (.ok result) → edit.Shows start result current

theorem Turns.of_error {start current : Note} {phase : EditPhase} {edit : NoteEdit}
    {failure : StorageError} (hgoing : ∀ edit result, phase ≠ .returned edit result) :
    Turns start current phase (.returned edit (.error failure)) := by
  refine ⟨hgoing, trivial, fun field hfield => ?_, fun field hfield => ?_, fun read hread => ?_,
    fun edit result hresult => ?_⟩
  · cases hfield
  · cases hfield
  · cases hread
  · cases hresult

end EditPhase

/-- Edits of different fields: those still to be written are in the note as at the
start, also for the edits that have read it. -/
structure FieldsApart (start current : Note) (phases : Nat → EditPhase) : Prop where
  ofField : ∀ caller, (phases caller).OfField start
  apart : ∀ caller other, caller ≠ other →
    ∀ field ∈ (phases caller).fields, field ∉ (phases other).fields
  current : ∀ caller, ∀ field ∈ (phases caller).pendingFields, field.Kept start current
  reads : ∀ caller, ∀ field ∈ (phases caller).pendingFields, ∀ other read,
    (phases other).read? = some read → field.Kept start read

namespace FieldsApart

variable {start current : Note} {phases : Nat → EditPhase} {caller : Nat}

theorem apart_update {phase : EditPhase} (hapart : FieldsApart start current phases)
    (hfields : ∀ field ∈ phase.fields, field ∈ (phases caller).fields) (first second : Nat)
    (hne : first ≠ second) :
    ∀ field ∈ (Function.update phases caller phase first).fields,
      field ∉ (Function.update phases caller phase second).fields := by
  intro field hfirst hsecond
  have hold : ∀ other, field ∈ (Function.update phases caller phase other).fields →
      field ∈ (phases other).fields := by
    intro other hother
    rw [Function.update_apply] at hother
    split at hother
    · next heq => exact heq ▸ hfields field hother
    · exact hother
  exact hapart.apart first second hne field (hold first hfirst) (hold second hsecond)

theorem turn {phase : EditPhase} (hapart : FieldsApart start current phases)
    (hturns : EditPhase.Turns start current (phases caller) phase) :
    FieldsApart start current (Function.update phases caller phase) := by
  have hpending : ∀ other, ∀ field ∈ (Function.update phases caller phase other).pendingFields,
      field ∈ (phases other).pendingFields := by
    intro other field hfield
    rw [Function.update_apply] at hfield
    split at hfield
    · next heq => exact heq ▸ hturns.pendingFields field hfield
    · exact hfield
  refine ⟨fun other => ?_, apart_update hapart hturns.fields, ?_, ?_⟩
  · rw [Function.update_apply]
    split
    · exact hturns.ofField
    · exact hapart.ofField other
  · exact fun other field hfield => hapart.current other field (hpending other field hfield)
  · intro other field hfield reader read hread
    have hbefore := hpending other field hfield
    rw [Function.update_apply] at hread
    split at hread
    · rcases hturns.reads read hread with hread | rfl
      · exact hapart.reads other field hbefore caller read hread
      · exact hapart.current other field hbefore
    · exact hapart.reads other field hbefore reader read hread

/-- A write leaves the fields of the others as the writer has read them. -/
theorem kept_of_write {edit : NoteEdit} {read note found : Note}
    (hapart : FieldsApart start current phases) (hphase : phases caller = .writing edit read note)
    (hfound : ∀ field : NoteField, field.Kept note found) {other : Nat} (hother : other ≠ caller)
    {field : NoteField} (hfield : field ∈ (phases other).fields) : field.Kept read found := by
  have hwriting := hapart.ofField caller
  rw [hphase] at hwriting
  have hforeign : field ∉ (phases caller).fields := hapart.apart other caller hother field hfield
  rw [hphase] at hforeign
  exact (hwriting.2.kept field hforeign).trans (hfound field)

theorem write {edit : NoteEdit} {read note stored found : Note}
    (hapart : FieldsApart start current phases) (hphase : phases caller = .writing edit read note)
    (hfound : ∀ field : NoteField, field.Kept note found) :
    FieldsApart start found (Function.update phases caller (.returned edit (.ok stored))) := by
  have hothers : ∀ other, ∀ field ∈
      (Function.update phases caller (.returned edit (.ok stored)) other).pendingFields,
        other ≠ caller ∧ field ∈ (phases other).pendingFields := by
    intro other field hfield
    rw [Function.update_apply] at hfield
    split at hfield
    · cases hfield
    · next hne => exact ⟨hne, hfield⟩
  refine ⟨fun other => ?_, apart_update hapart fun field hfield => ?_, ?_, ?_⟩
  · rw [Function.update_apply]
    split
    · trivial
    · exact hapart.ofField other
  · rw [hphase]
    exact hfield
  · intro other field hfield
    obtain ⟨hne, hbefore⟩ := hothers other field hfield
    have hread : field.Kept start read :=
      hapart.reads other field hbefore caller read (by rw [hphase]; rfl)
    exact hread.trans
      (kept_of_write hapart hphase hfound hne (EditPhase.fields_of_pending hbefore))
  · intro other field hfield reader readThen hread
    obtain ⟨-, hbefore⟩ := hothers other field hfield
    rw [Function.update_apply] at hread
    split at hread
    · cases hread
    · exact hapart.reads other field hbefore reader readThen hread

end FieldsApart

/-- The action is a step of an edit. -/
def NoteEditAction.ofEdit {Clock : Type} : NoteEditAction Clock → Bool
  | .check _ | .place _ _ | .write _ _ => true
  | .delete _ _ | .restore _ _ => false

namespace EditState

variable {S Clock : Type} {backend : NoteBackend S Clock} {valid : S → Prop}
  {state next : EditState S} {start current : Note}

theorem afterCheck_turns (hbackend : backend.KeepsFields valid) {inner : S} (hvalid : valid inner)
    (hread : backend.readNote start.id inner = .ok current) {phase : EditPhase} {edit : NoteEdit}
    (hphase : phase = .begun start.id edit) (hfields : edit.fields ≠ [])
    (hstart : ∀ field ∈ edit.fields, field.Kept start current) :
    EditPhase.Turns start current phase (afterCheck backend inner start.id edit) := by
  subst hphase
  have hgoing : ∀ other result, EditPhase.begun start.id edit ≠ .returned other result :=
    fun other result heq => by cases heq
  unfold afterCheck
  split
  · exact .of_error hgoing
  · next hrefused =>
      rw [hread]
      dsimp only
      split
      · exact .of_error hgoing
      · have hid : current.id = start.id := hbackend.note_id hvalid hread
        rcases NoteEdit.checked_cases hfields hrefused hstart with
          ⟨failure, hchecked⟩ | ⟨hchecked, hshows⟩ | ⟨hplaces, hchecked⟩ |
            ⟨note, hchecked, hwritten⟩
        · rw [hchecked]
          exact .of_error hgoing
        · rw [hchecked]
          refine ⟨hgoing, trivial, fun field hfield => hfield, fun field hfield => ?_,
            fun read hread => ?_, fun other result hresult => ?_⟩
          · cases hfield
          · cases hread
          · cases hresult
            exact hshows
        · rw [hchecked]
          refine ⟨hgoing, ⟨hplaces, hid, rfl⟩, fun field hfield => hfield,
            fun field hfield => hfield, fun read hread => ?_, fun other result hresult => ?_⟩
          · exact .inr (Option.some.inj hread).symm
          · cases hresult
        · rw [hchecked]
          refine ⟨hgoing, ⟨hid, hwritten⟩, fun field hfield => hfield,
            fun field hfield => hfield, fun read hread => ?_, fun other result hresult => ?_⟩
          · exact .inr (Option.some.inj hread).symm
          · cases hresult

theorem afterPlace_turns {inner : S} {phase : EditPhase} {edit : NoteEdit} {read note : Note}
    (hphase : phase = .placing edit read note) (hofField : phase.OfField start)
    (resequenced : Except StorageError Unit) :
    EditPhase.Turns start current phase
      (afterPlace backend inner edit read note resequenced) := by
  subst hphase
  obtain ⟨hplaces, hid, rfl⟩ := hofField
  have hgoing : ∀ other result, EditPhase.placing edit note note ≠ .returned other result :=
    fun other result heq => by cases heq
  unfold afterPlace
  split
  · exact .of_error hgoing
  · next profile _ =>
      rcases NoteEdit.placed_cases hplaces with ⟨failure, hplaced⟩ | ⟨written, hplaced, hwritten⟩
      · rw [hplaced]
        exact .of_error hgoing
      · rw [hplaced]
        refine ⟨hgoing, ⟨hid, hwritten⟩, fun field hfield => hfield, fun field hfield => hfield,
          fun read hread => .inl hread, fun other result hresult => ?_⟩
        cases hresult

/-- A step of an edit writes the note it has made, or leaves the note as it is. -/
theorem step_cases (hbackend : backend.KeepsFields valid) (hvalid : valid state.inner)
    (hread : backend.readNote start.id state.inner = .ok current)
    (hapart : FieldsApart start current state.phases) {action : NoteEditAction Clock}
    (hedit : action.ofEdit = true) (hstep : step backend state action = some next) :
    (∃ caller phase, EditPhase.Turns start current (state.phases caller) phase ∧
      next.phases = Function.update state.phases caller phase ∧
        backend.readNote start.id next.inner = .ok current) ∨
      ∃ caller clock edit read note stored found, action = .write caller clock ∧
        state.phases caller = .writing edit read note ∧
        next.phases = Function.update state.phases caller (.returned edit (.ok stored)) ∧
        backend.readNote start.id next.inner = .ok found ∧
        (∀ field : NoteField, field.Kept note stored) ∧
          ∀ field : NoteField, field.Kept note found := by
  cases action with
  | delete clock id => cases hedit
  | restore clock note => cases hedit
  | check caller =>
      simp only [step] at hstep
      split at hstep
      · next id edit hphase =>
          obtain rfl := Option.some.inj hstep
          have hofField := hapart.ofField caller
          have hcurrent := hapart.current caller
          rw [hphase] at hofField hcurrent
          obtain ⟨rfl, hfields⟩ := hofField
          exact .inl ⟨caller, _,
            afterCheck_turns hbackend hvalid hread hphase hfields hcurrent, rfl, hread⟩
      · contradiction
  | place caller resequenced =>
      simp only [step] at hstep
      split at hstep
      · next edit read note hphase =>
          obtain rfl := Option.some.inj hstep
          exact .inl ⟨caller, _, afterPlace_turns hphase (hapart.ofField caller) resequenced,
            rfl, hread⟩
      · contradiction
  | write caller clock =>
      simp only [step] at hstep
      split at hstep
      · next edit read note hphase =>
          obtain rfl := Option.some.inj hstep
          have hofField := hapart.ofField caller
          rw [hphase] at hofField
          obtain ⟨hid, hwritten⟩ := hofField
          have hnote : note.id = start.id := hwritten.id.trans hid
          cases hwrite : backend.updateNote clock note state.inner with
          | mk inner result =>
              obtain ⟨-, heffect⟩ := hbackend.updateNote hvalid hwrite
              cases result with
              | error failure =>
                  refine .inl ⟨caller, .returned edit (.error failure), .of_error ?_, rfl, ?_⟩
                  · intro other result heq
                    rw [hphase] at heq
                    cases heq
                  · exact (heffect start.id).trans hread
              | ok stored =>
                  obtain ⟨hstored, found, hfound, hkept⟩ := heffect
                  rw [hnote] at hfound
                  exact .inr ⟨caller, clock, edit, read, note, stored, found, rfl, hphase, rfl,
                    hfound, hstored, hkept⟩
      · contradiction

theorem valid_step_ofEdit (hbackend : backend.KeepsFields valid) (hvalid : valid state.inner)
    {action : NoteEditAction Clock} (hedit : action.ofEdit = true)
    (hstep : step backend state action = some next) : valid next.inner := by
  cases action with
  | delete clock id => cases hedit
  | restore clock note => cases hedit
  | check caller | place caller resequenced =>
      simp only [step] at hstep
      split at hstep
      · exact Option.some.inj hstep ▸ hvalid
      · contradiction
  | write caller clock =>
      simp only [step] at hstep
      split at hstep
      · obtain rfl := Option.some.inj hstep
        exact (hbackend.updateNote hvalid rfl).1
      · contradiction

/-- A call that returned stays so. -/
theorem returned_step {action : NoteEditAction Clock}
    (hstep : step backend state action = some next)
    {caller : Nat} {edit : NoteEdit} {result : Except StorageError Note}
    (hphase : state.phases caller = .returned edit result) :
    next.phases caller = .returned edit result := by
  have hupdate : ∀ (other : Nat) (phase : EditPhase), (state.phases other) ≠ .returned edit result →
      Function.update state.phases other phase caller = .returned edit result := by
    intro other phase hgoing
    have hne : caller ≠ other := by
      rintro rfl
      exact hgoing hphase
    rw [Function.update_of_ne hne, hphase]
  cases action with
  | check other | place other resequenced | write other clock =>
      simp only [step] at hstep
      split at hstep
      · next hgoing =>
          obtain rfl := Option.some.inj hstep
          refine hupdate other _ ?_
          rw [hgoing]
          exact fun heq => by cases heq
      · contradiction
  | delete clock id | restore clock note =>
      simp only [step] at hstep
      split at hstep
      all_goals
        obtain rfl := Option.some.inj hstep
        exact hphase

/-- All edits that returned are in the note. -/
def AllShown (start current : Note) (phases : Nat → EditPhase) : Prop :=
  ∀ caller edit result, phases caller = .returned edit (.ok result) →
    edit.Shows start result current

/-- Of the edits that returned, at least one is in the note. -/
def SomeShown (start current : Note) (phases : Nat → EditPhase) : Prop :=
  (∃ caller edit result, phases caller = .returned edit (.ok result)) →
    ∃ caller edit result, phases caller = .returned edit (.ok result) ∧
      edit.Shows start result current

/-- The store has still the note that an edit has read when the edit writes it. -/
def ReadsLatest (backend : NoteBackend S Clock) (state : EditState S) :
    NoteEditAction Clock → Prop
  | .write caller _ => ∀ edit read note, state.phases caller = .writing edit read note →
      backend.readNote read.id state.inner = .ok read
  | _ => True

variable {phases : Nat → EditPhase} {caller : Nat}

theorem AllShown.turn {phase : EditPhase} (hshown : AllShown start current phases)
    (hturns : EditPhase.Turns start current (phases caller) phase) :
    AllShown start current (Function.update phases caller phase) := by
  intro other edit result hreturned
  rw [Function.update_apply] at hreturned
  split at hreturned
  · exact hturns.shows edit result hreturned
  · exact hshown other edit result hreturned

theorem SomeShown.turn {phase : EditPhase} (hshown : SomeShown start current phases)
    (hturns : EditPhase.Turns start current (phases caller) phase) :
    SomeShown start current (Function.update phases caller phase) := by
  rintro ⟨other, edit, result, hreturned⟩
  rw [Function.update_apply] at hreturned
  split at hreturned
  · exact ⟨caller, edit, result, by rw [Function.update_self, hreturned],
      hturns.shows edit result hreturned⟩
  · obtain ⟨last, edit', result', hlast, hshows⟩ := hshown ⟨other, edit, result, hreturned⟩
    have hne : last ≠ caller := by
      rintro rfl
      exact hturns.going edit' (.ok result') hlast
    exact ⟨last, edit', result', by rw [Function.update_of_ne hne, hlast], hshows⟩

/-- A write that finds the note it read leaves the other edits in the note. -/
theorem AllShown.write {edit : NoteEdit} {note stored found : Note}
    (hshown : AllShown start current phases) (hapart : FieldsApart start current phases)
    (hphase : phases caller = .writing edit current note)
    (hstored : ∀ field : NoteField, field.Kept note stored)
    (hfound : ∀ field : NoteField, field.Kept note found) :
    AllShown start found (Function.update phases caller (.returned edit (.ok stored))) := by
  intro other edit' result hreturned
  rw [Function.update_apply] at hreturned
  split at hreturned
  · cases hreturned
    have hofField := hapart.ofField caller
    rw [hphase] at hofField
    exact hofField.2.shows_stored hstored hfound
  · next hne =>
      refine (hshown other edit' result hreturned).of_kept fun field hfield => ?_
      refine FieldsApart.kept_of_write hapart hphase hfound hne ?_
      rw [hreturned]
      exact hfield

theorem SomeShown.write {edit : NoteEdit} {read note stored found : Note}
    (hapart : FieldsApart start current phases) (hphase : phases caller = .writing edit read note)
    (hstored : ∀ field : NoteField, field.Kept note stored)
    (hfound : ∀ field : NoteField, field.Kept note found) :
    SomeShown start found (Function.update phases caller (.returned edit (.ok stored))) := by
  have hofField := hapart.ofField caller
  rw [hphase] at hofField
  exact fun _ => ⟨caller, edit, stored, Function.update_self ..,
    hofField.2.shows_stored hstored hfound⟩

/-- Edits of different fields of the note that are under way, with what holds of those
that returned. -/
structure UnderWay (backend : NoteBackend S Clock) (valid : S → Prop) (start : Note)
    (shown : Note → (Nat → EditPhase) → Prop) (state : EditState S) : Prop where
  valid : valid state.inner
  current : ∃ current, backend.readNote start.id state.inner = .ok current ∧
    FieldsApart start current state.phases ∧ shown current state.phases

theorem UnderWay.step_someShown (hbackend : backend.KeepsFields valid)
    (hstate : UnderWay backend valid start (SomeShown start) state) {action : NoteEditAction Clock}
    (hedit : action.ofEdit = true) (hstep : step backend state action = some next) :
    UnderWay backend valid start (SomeShown start) next := by
  obtain ⟨hvalid, current, hread, hapart, hshown⟩ := hstate
  refine ⟨valid_step_ofEdit hbackend hvalid hedit hstep, ?_⟩
  rcases step_cases hbackend hvalid hread hapart hedit hstep with
    ⟨caller, phase, hturns, hphases, hafter⟩ |
      ⟨caller, clock, edit, read, note, stored, found, -, hphase, hphases, hafter, hstored, hfound⟩
  · rw [hphases]
    exact ⟨current, hafter, hapart.turn hturns, hshown.turn hturns⟩
  · rw [hphases]
    exact ⟨found, hafter, hapart.write hphase hfound, .write hapart hphase hstored hfound⟩

theorem UnderWay.step_allShown (hbackend : backend.KeepsFields valid)
    (hstate : UnderWay backend valid start (AllShown start) state) {action : NoteEditAction Clock}
    (hedit : action.ofEdit = true) (hlatest : ReadsLatest backend state action)
    (hstep : step backend state action = some next) :
    UnderWay backend valid start (AllShown start) next := by
  obtain ⟨hvalid, current, hread, hapart, hshown⟩ := hstate
  refine ⟨valid_step_ofEdit hbackend hvalid hedit hstep, ?_⟩
  rcases step_cases hbackend hvalid hread hapart hedit hstep with
    ⟨caller, phase, hturns, hphases, hafter⟩ |
      ⟨caller, clock, edit, read, note, stored, found, rfl, hphase, hphases, hafter, hstored,
        hfound⟩
  · rw [hphases]
    exact ⟨current, hafter, hapart.turn hturns, hshown.turn hturns⟩
  · have hofField := hapart.ofField caller
    rw [hphase] at hofField
    have hcurrent := hlatest edit read note hphase
    rw [hofField.1, hread] at hcurrent
    obtain rfl := Except.ok.inj hcurrent
    rw [hphases]
    exact ⟨found, hafter, hapart.write hphase hfound,
      hshown.write hapart hphase hstored hfound⟩

/-- Two edits of different fields of a stored note begin, and no other edit is under
way. -/
structure TwoBegin (backend : NoteBackend S Clock) (state : EditState S) (start : Note)
    (first second : Nat) (edit other : NoteEdit) : Prop where
  read : backend.readNote start.id state.inner = .ok start
  ne : first ≠ second
  firstBegins : state.phases first = .begun start.id edit
  secondBegins : state.phases second = .begun start.id other
  idle : ∀ caller, caller ≠ first → caller ≠ second →
    ∃ edit failure, state.phases caller = .returned edit (.error failure)
  firstFields : edit.fields ≠ []
  secondFields : other.fields ≠ []
  apart : ∀ field ∈ edit.fields, field ∉ other.fields

theorem TwoBegin.fieldsApart {first second : Nat} {edit other : NoteEdit}
    (hbegin : TwoBegin backend state start first second edit other) :
    FieldsApart start start state.phases ∧
      ∀ caller edit result, state.phases caller ≠ .returned edit (.ok result) := by
  have hcases : ∀ caller, (caller = first ∧ state.phases caller = .begun start.id edit) ∨
      (caller = second ∧ state.phases caller = .begun start.id other) ∨
      ∃ edit failure, state.phases caller = .returned edit (.error failure) := by
    intro caller
    by_cases hfirst : caller = first
    · exact .inl ⟨hfirst, hfirst ▸ hbegin.firstBegins⟩
    · by_cases hsecond : caller = second
      · exact .inr (.inl ⟨hsecond, hsecond ▸ hbegin.secondBegins⟩)
      · exact .inr (.inr (hbegin.idle caller hfirst hsecond))
  refine ⟨⟨fun caller => ?_, fun caller caller' hne field hfield hfield' => ?_,
    fun caller field _ => .refl field start, fun caller field _ reader read hread => ?_⟩,
    fun caller edit' result hreturned => ?_⟩
  · rcases hcases caller with ⟨-, hphase⟩ | ⟨-, hphase⟩ | ⟨edit', failure, hphase⟩
    · rw [hphase]
      exact ⟨rfl, hbegin.firstFields⟩
    · rw [hphase]
      exact ⟨rfl, hbegin.secondFields⟩
    · rw [hphase]
      trivial
  · rcases hcases caller with ⟨rfl, hphase⟩ | ⟨rfl, hphase⟩ | ⟨edit', failure, hphase⟩
    · rw [hphase] at hfield
      rcases hcases caller' with ⟨rfl, -⟩ | ⟨-, hphase'⟩ | ⟨edit', failure, hphase'⟩
      · exact hne rfl
      · rw [hphase'] at hfield'
        exact hbegin.apart field hfield hfield'
      · rw [hphase'] at hfield'
        cases hfield'
    · rw [hphase] at hfield
      rcases hcases caller' with ⟨-, hphase'⟩ | ⟨rfl, -⟩ | ⟨edit', failure, hphase'⟩
      · rw [hphase'] at hfield'
        exact hbegin.apart field hfield' hfield
      · exact hne rfl
      · rw [hphase'] at hfield'
        cases hfield'
    · rw [hphase] at hfield
      cases hfield
  · rcases hcases reader with ⟨-, hphase⟩ | ⟨-, hphase⟩ | ⟨edit', failure, hphase⟩ <;>
      rw [hphase] at hread <;> cases hread
  · rcases hcases caller with ⟨-, hphase⟩ | ⟨-, hphase⟩ | ⟨edit', failure, hphase⟩ <;>
      rw [hphase] at hreturned <;> cases hreturned

/-- When two edits of different fields of one note have both returned, the note shows
one of them, and both of them if each write found the note its edit had read. -/
theorem run_shows_both (backend : NoteBackend S Clock) (hbackend : backend.KeepsFields valid)
    (hvalid : valid state.inner) {first second : Nat} {edit other : NoteEdit}
    (hbegin : TwoBegin backend state start first second edit other)
    {actions : List (NoteEditAction Clock)} (hedits : ∀ action ∈ actions, action.ofEdit = true)
    {last : EditState S} (hrun : runAll (step backend) state actions = some last)
    {result result' : Note} (hfirst : last.phases first = .returned edit (.ok result))
    (hsecond : last.phases second = .returned other (.ok result')) :
    ∃ final, backend.readNote start.id last.inner = .ok final ∧
      (edit.Shows start result final ∨ other.Shows start result' final) ∧
        (MeetsAll (step backend) (ReadsLatest backend) state actions →
          edit.Shows start result final ∧ other.Shows start result' final) := by
  obtain ⟨hapart, hnone⟩ := hbegin.fieldsApart
  have hsome : UnderWay backend valid start (SomeShown start) last := by
    have hstart : UnderWay backend valid start (SomeShown start) state :=
      ⟨hvalid, start, hbegin.read, hapart, fun ⟨caller, edit, result, hreturned⟩ =>
        absurd hreturned (hnone caller edit result)⟩
    exact runAll_invariant_of_meetsAll (step backend)
      (fun _ _ _ hstate hedit hnext => hstate.step_someShown hbackend hedit hnext) hstart
      (MeetsAll.of_forall fun _ => hedits) hrun
  obtain ⟨-, final, hread, -, hshown⟩ := hsome
  refine ⟨final, hread, ?_, fun hmeets => ?_⟩
  · obtain ⟨caller, edit', result'', hreturned, hshows⟩ := hshown ⟨first, edit, result, hfirst⟩
    by_cases hcaller : caller = first
    · subst hcaller
      rw [hfirst] at hreturned
      cases hreturned
      exact .inl hshows
    · by_cases hcaller' : caller = second
      · subst hcaller'
        rw [hsecond] at hreturned
        cases hreturned
        exact .inr hshows
      · -- Any other call has failed and stays so.
        obtain ⟨idle, failure, hidle⟩ := hbegin.idle caller hcaller hcaller'
        have hstays : last.phases caller = .returned idle (.error failure) :=
          runAll_invariant (step backend)
            (fun _ _ _ hphase hnext => returned_step hnext hphase) hidle hrun
        rw [hstays] at hreturned
        cases hreturned
  · have hall : UnderWay backend valid start (AllShown start) last := by
      have hstart : UnderWay backend valid start (AllShown start) state :=
        ⟨hvalid, start, hbegin.read, hapart, fun caller edit result hreturned =>
          absurd hreturned (hnone caller edit result)⟩
      have hmeetsBoth : MeetsAll (step backend) (fun state action => action.ofEdit = true ∧
          ReadsLatest backend state action) state actions :=
        hmeets.mono fun _ action hmem hlatest => ⟨hedits action hmem, hlatest⟩
      exact runAll_invariant_of_meetsAll (step backend)
        (fun _ _ _ hstate hmet hnext => hstate.step_allShown hbackend hmet.1 hmet.2 hnext) hstart
        hmeetsBoth hrun
    obtain ⟨-, final', hread', -, hshown'⟩ := hall
    obtain rfl := Except.ok.inj (hread.symm.trans hread')
    exact ⟨hshown' first edit result hfirst, hshown' second other result' hsecond⟩

end EditState

/-- The two agree in what the linking layer does not look at. -/
structure Note.SameOrder (note other : Note) : Prop where
  isPinned : other.isPinned = note.isPinned
  isStarred : other.isStarred = note.isStarred
  sortKey : other.sortKey = note.sortKey

/-- An update keeps the order of its note. -/
def StorageBackend.KeepsOrder {S Clock : Type} (store : StorageBackend S Clock)
    (valid : S → Prop) : Prop :=
  ∀ {inner clock note after stored}, valid inner →
    store.updateNote clock note inner = .ok (after, stored) →
      note.SameOrder stored ∧ ∃ found, store.readNote note.id after = .ok found ∧
        note.SameOrder found

theorem NoteField.Kept.of_same {note other : Note} (hlinks : note.SameLinks other)
    (horder : note.SameOrder other) (field : NoteField) : field.Kept note other := by
  cases field with
  | isStarred => exact horder.isStarred
  | isPinned => exact horder.isPinned
  | sortKey => exact horder.sortKey
  | aliases => exact ⟨hlinks.notebookId, .inl hlinks.aliases⟩
  | manualLinks => exact congrArg manualRaws hlinks.links

namespace LinkingBackend

variable {S Clock : Type} {store : StorageBackend S Clock} {valid : S → Prop}

/-- The note that is prepared has the fields of the one that is written. -/
theorem kept_of_prepared {patterns : LinkSyntax} {note prepared : Note}
    {backend after : LinkingBackend S}
    (hprepare : prepare store patterns note backend = (after, .ok prepared)) (field : NoteField) :
    field.Kept note prepared := by
  obtain ⟨alias_, bookmarks, links, rfl, hmanual, halias⟩ := prepared_eq hprepare
  cases field with
  | isStarred | isPinned | sortKey => rfl
  | aliases => exact ⟨rfl, halias⟩
  | manualLinks => exact hmanual

theorem keepsFields_noteBackend (hlawful : store.Lawful valid) (horder : store.KeepsOrder valid)
    (patterns : LinkSyntax)
    (notebookSortProfile : Uuid → S → Except StorageError NotebookSortProfile) :
    (noteBackend store patterns notebookSortProfile).KeepsFields
      fun backend => valid backend.inner where
  note_id := fun hvalid hread => hlawful.note_id hvalid hread
  updateNote := by
    intro backend clock note after result hvalid hupdate
    rcases writeNote_cases hupdate with
      ⟨failure, rfl, hinner⟩ | ⟨looked, prepared, stored, hprepare, hstored, rfl⟩
    · exact ⟨hinner ▸ hvalid, fun id => congrArg (store.readNote id) hinner⟩
    · obtain ⟨hafter, hwrote⟩ := hlawful.updateNote hvalid hstored
      obtain ⟨hordered, found, hfound, hfoundOrder⟩ := horder hvalid hstored
      obtain ⟨found', hfound', hsame⟩ := hwrote.read
      obtain rfl := Except.ok.inj (hfound.symm.trans hfound')
      have hid : prepared.id = note.id := by
        obtain ⟨alias_, bookmarks, links, rfl, -, -⟩ := prepared_eq hprepare
        rfl
      refine ⟨hafter, fun field => ?_, found, hid ▸ hfound, fun field => ?_⟩
      · exact (kept_of_prepared hprepare field).trans (.of_same hwrote.stored hordered field)
      · exact (kept_of_prepared hprepare field).trans (.of_same hsame hfoundOrder field)

end LinkingBackend

theorem Db.keepsOrder_storage : storage.KeepsOrder fun _ : Db => True := by
  intro db clock note after stored _ hupdate
  simp only [storage, updateNote] at hupdate
  split at hupdate
  · contradiction
  · cases hupdate
    refine ⟨⟨rfl, rfl, rfl⟩, _, PutsNote.read
      ⟨notes_restoreResources _ _ _, notebooks_restoreResources _ _ _⟩, ⟨rfl, rfl, rfl⟩⟩

namespace FieldEditsWitness

open LinkingIndexWitness

def backend : NoteBackend (LinkingBackend Db) DbClock :=
  LinkingBackend.noteBackend Db.storage patterns Db.notebookSortProfile

def inner : LinkingBackend Db :=
  (LinkingBackend.createNote Db.storage patterns ⟨1, 1⟩ (note 1 none) ⟨db, none⟩).1

/-- The note as the store has it. -/
def stored : Note := { note 1 none with vv := (∅ : VersionVector).increment "A", lastWriter := "A" }

/-- One client is to star the note and another to give it an alias. -/
def start : EditState (LinkingBackend Db) where
  inner := inner
  phases
    | 0 => .begun 1 (.setStarred true)
    | 1 => .begun 1 (.setNoteAlias (some "a"))
    | _ => .returned (.setStarred true) (.error (.notFound 1))
  deleted _ := false

theorem twoBegin : EditState.TwoBegin backend start stored 0 1 (.setStarred true)
    (.setNoteAlias (some "a")) where
  read := rfl
  ne := by decide
  firstBegins := rfl
  secondBegins := rfl
  idle := by
    rintro (_ | _ | caller) hfirst hsecond
    · exact absurd rfl hfirst
    · exact absurd rfl hsecond
    · exact ⟨_, _, rfl⟩
  firstFields := by decide
  secondFields := by decide
  apart := by decide

/-- The two read the note before either of them writes it. -/
def bothRead : List (NoteEditAction DbClock) :=
  [.check 0, .check 1, .write 0 ⟨2, 2⟩, .write 1 ⟨3, 3⟩]

theorem star_lost :
    ∃ last result result' final, runAll (EditState.step backend) start bothRead = some last ∧
      last.phases 0 = .returned (.setStarred true) (.ok result) ∧
      last.phases 1 = .returned (.setNoteAlias (some "a")) (.ok result') ∧
      backend.readNote 1 last.inner = .ok final ∧
        ¬ (NoteEdit.setStarred true).Shows stored result final := by
  refine ⟨_, _, _, _, rfl, rfl, rfl, rfl, fun hstarred => ?_⟩
  exact Bool.false_ne_true hstarred

/-- The second reads the note after the first has written it. -/
def inTurn : List (NoteEditAction DbClock) :=
  [.check 0, .write 0 ⟨2, 2⟩, .check 1, .write 1 ⟨3, 3⟩]

theorem run_shows_both_in_turn :
    ∃ last final, runAll (EditState.step backend) start inTurn = some last ∧
      backend.readNote 1 last.inner = .ok final ∧ final.isStarred = true ∧
        final.alias = some "a" := by
  have hedits : ∀ action ∈ inTurn, action.ofEdit = true := by decide
  obtain ⟨last, hlast⟩ : ∃ last, runAll (EditState.step backend) start inTurn = some last :=
    ⟨_, rfl⟩
  obtain ⟨result, hresult⟩ : ∃ result,
      last.phases 0 = .returned (.setStarred true) (.ok result) := by
    cases hlast
    exact ⟨_, rfl⟩
  obtain ⟨result', hresult'⟩ : ∃ result,
      last.phases 1 = .returned (.setNoteAlias (some "a")) (.ok result) := by
    cases hlast
    exact ⟨_, rfl⟩
  obtain ⟨final, hread, -, hboth⟩ := EditState.run_shows_both backend
    (LinkingBackend.keepsFields_noteBackend Db.lawful_storage Db.keepsOrder_storage patterns
      Db.notebookSortProfile) trivial twoBegin hedits hlast hresult hresult'
  have hlatest : MeetsAll (EditState.step backend) (EditState.ReadsLatest backend) start
      inTurn := by
    refine ⟨trivial, fun next hnext => ⟨?_, fun next' hnext' => ⟨trivial, fun last hlast =>
      ⟨?_, fun _ _ => trivial⟩⟩⟩⟩
    · obtain rfl := Option.some.inj hnext
      intro edit read note hphase
      cases hphase
      rfl
    · obtain rfl := Option.some.inj hnext
      obtain rfl := Option.some.inj hnext'
      obtain rfl := Option.some.inj hlast
      intro edit read note hphase
      cases hphase
      rfl
  obtain ⟨hstarred, haliased⟩ := hboth hlatest
  exact ⟨last, final, hlast, hread, hstarred, haliased.1⟩

end FieldEditsWitness

end Keeplin
