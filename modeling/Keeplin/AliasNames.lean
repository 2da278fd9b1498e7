/-
The names that have to be unique: the alias of a live note outside the Inbox among
those of its notebook, and that of a live notebook.  A write names one entity in
the store and its index update the same one in the index.
-/
import Keeplin.AliasLocking

namespace Keeplin

open StorageBackend

/-- An alias, with where it has to be unique: among the notes of a notebook, or
among the notebooks. -/
inductive AliasName where
  | note (alias_ : String) (notebookId : Uuid)
  | notebook (alias_ : String)
deriving DecidableEq

def Note.aliasName (note : Note) : Option AliasName :=
  note.indexed.map fun value => .note value.1 value.2

def Notebook.aliasName (notebook : Notebook) : Option AliasName :=
  notebook.indexed.map .notebook

def IndexUpdate.name : IndexUpdate → Option AliasName
  | .upsertNote stored => stored.aliasName
  | .upsertNotebook stored => stored.aliasName
  | .removeNote _ | .removeNotebook _ => none

def LinkingOp.name : LinkingOp → Option AliasName
  | .createNote note | .updateNote note => note.aliasName
  | .createNotebook notebook | .updateNotebook notebook => notebook.aliasName
  | .deleteNote _ | .deleteNotebook _ => none

/-- The names of notes and of notebooks as one map. -/
def aliasNames (notes : Uuid → Option (String × Uuid)) (notebooks : Uuid → Option String) :
    AliasKey → Option AliasName
  | .note id => (notes id).map fun value => .note value.1 value.2
  | .notebook id => (notebooks id).map .notebook

theorem aliasNames_updateNote (notes : Uuid → Option (String × Uuid))
    (notebooks : Uuid → Option String) (id : Uuid) (value : Option (String × Uuid)) :
    aliasNames (Function.update notes id value) notebooks =
      Function.update (aliasNames notes notebooks) (.note id)
        (value.map fun value => .note value.1 value.2) := by
  funext key
  cases key with
  | note other =>
      simp only [aliasNames, Function.update_apply, AliasKey.note.injEq]
      split <;> rfl
  | notebook other => simp [aliasNames]

theorem aliasNames_updateNotebook (notes : Uuid → Option (String × Uuid))
    (notebooks : Uuid → Option String) (id : Uuid) (value : Option String) :
    aliasNames notes (Function.update notebooks id value) =
      Function.update (aliasNames notes notebooks) (.notebook id) (value.map .notebook) := by
  funext key
  cases key with
  | note other => simp [aliasNames]
  | notebook other =>
      simp only [aliasNames, Function.update_apply, AliasKey.notebook.injEq]
      split <;> rfl

namespace AliasIndex

def nameOf (idx : AliasIndex) : AliasKey → Option AliasName :=
  aliasNames (fun id => idx.aliasedNotes[id]?) fun id => idx.aliasedNotebooks[id]?

/-- The index holds some notes and notebooks. -/
def Proper (idx : AliasIndex) : Prop :=
  ∃ notes notebooks, idx.Holds notes notebooks

variable {idx : AliasIndex}

theorem Holds.nameOf {notes : Uuid → Option (String × Uuid)} {notebooks : Uuid → Option String}
    (hholds : idx.Holds notes notebooks) : idx.nameOf = aliasNames notes notebooks := by
  have hnotes : (fun id => idx.aliasedNotes[id]?) = notes := funext hholds.aliasedNotes
  have hnotebooks : (fun id => idx.aliasedNotebooks[id]?) = notebooks :=
    funext hholds.aliasedNotebooks
  rw [AliasIndex.nameOf, hnotes, hnotebooks]

theorem Proper.perform (hproper : idx.Proper) (update : IndexUpdate) :
    (update.perform idx).Proper ∧
      (update.perform idx).nameOf = Function.update idx.nameOf update.key update.name := by
  obtain ⟨notes, notebooks, hholds⟩ := hproper
  rw [hholds.nameOf]
  cases update with
  | upsertNote stored =>
      have hafter := hholds.upsertNote stored
      exact ⟨⟨_, _, hafter⟩, hafter.nameOf.trans (aliasNames_updateNote ..)⟩
  | removeNote id =>
      have hafter := hholds.removeNote id
      exact ⟨⟨_, _, hafter⟩, hafter.nameOf.trans (aliasNames_updateNote ..)⟩
  | upsertNotebook stored =>
      have hafter := hholds.upsertNotebook stored
      exact ⟨⟨_, _, hafter⟩, hafter.nameOf.trans (aliasNames_updateNotebook ..)⟩
  | removeNotebook id =>
      have hafter := hholds.removeNotebook id
      exact ⟨⟨_, _, hafter⟩, hafter.nameOf.trans (aliasNames_updateNotebook ..)⟩

theorem Proper.inverse (hproper : idx.Proper) : idx.Inverse := by
  obtain ⟨notes, notebooks, hholds⟩ := hproper
  exact hholds.inverse

theorem noteAliasTaken_of_nameOf (hproper : idx.Proper) {alias_ : String}
    {other self notebookId : Uuid} (hne : other ≠ self)
    (hname : idx.nameOf (.note other) = some (.note alias_ notebookId)) :
    idx.noteAliasTaken alias_ self notebookId = true := by
  obtain ⟨⟨found, foundNotebook⟩, hfound, hsame⟩ := Option.map_eq_some_iff.mp hname
  obtain ⟨rfl, rfl⟩ := AliasName.note.inj hsame
  have hmem := (hproper.inverse.notes _ other _).mpr hfound
  rw [noteAliasTaken, List.any_eq_true]
  exact ⟨_, Std.ExtTreeSet.mem_toList.mpr hmem, by simp [hne]⟩

theorem notebookAliasTaken_of_nameOf (hproper : idx.Proper) {alias_ : String}
    {other self : Uuid} (hne : other ≠ self)
    (hname : idx.nameOf (.notebook other) = some (.notebook alias_)) :
    idx.notebookAliasTaken alias_ self = true := by
  obtain ⟨found, hfound, hsame⟩ := Option.map_eq_some_iff.mp hname
  obtain rfl := AliasName.notebook.inj hsame
  have hmem := (hproper.inverse.notebooks _ other).mpr hfound
  rw [notebookAliasTaken, List.any_eq_true]
  exact ⟨_, Std.ExtTreeSet.mem_toList.mpr hmem, by simp [hne]⟩

end AliasIndex

section Store

variable {S Clock : Type} (store : StorageBackend S Clock)

def storedName (inner : S) : AliasKey → Option AliasName :=
  aliasNames (store.noteIndexed inner) (store.notebookIndexed inner)

variable {store} {valid : S → Prop} {inner after : S} {patterns : LinkSyntax}

/-- The store names the entity of a write as the write does, and the index is to
follow. -/
structure PerformedOp (store : StorageBackend S Clock) (valid : S → Prop) (op : LinkingOp)
    (inner after : S) (update : IndexUpdate) : Prop where
  valid : valid after
  key : update.key = op.key
  name : update.name = op.name
  stored : storedName store after = Function.update (storedName store inner) op.key op.name

theorem WroteNote.storedName {note stored : Note}
    (hwrote : store.WroteNote note inner after stored) :
    storedName store after =
      Function.update (storedName store inner) (.note note.id) note.aliasName := by
  rw [Keeplin.storedName, Keeplin.storedName, hwrote.noteIndexed, notebookIndexed,
    look_of_unchanged hwrote.notebooks, aliasNames_updateNote, hwrote.stored.id,
    hwrote.stored.indexed]
  rfl

theorem DeletedNote.storedName {id : Uuid} (hdeleted : store.DeletedNote id inner after) :
    storedName store after = Function.update (storedName store inner) (.note id) none := by
  rw [Keeplin.storedName, Keeplin.storedName, hdeleted.noteIndexed, notebookIndexed,
    look_of_unchanged hdeleted.notebooks, aliasNames_updateNote]
  rfl

theorem WroteNotebook.storedName {notebook stored : Notebook}
    (hwrote : store.WroteNotebook notebook inner after stored) :
    storedName store after =
      Function.update (storedName store inner) (.notebook notebook.id) notebook.aliasName := by
  rw [Keeplin.storedName, Keeplin.storedName, hwrote.notebookIndexed, noteIndexed,
    look_of_unchanged hwrote.notes, aliasNames_updateNotebook, hwrote.stored.id,
    hwrote.stored.indexed]
  rfl

theorem DeletedNotebook.storedName {id : Uuid}
    (hdeleted : store.DeletedNotebook id inner after) :
    storedName store after = Function.update (storedName store inner) (.notebook id) none := by
  rw [Keeplin.storedName, Keeplin.storedName, hdeleted.notebookIndexed, noteIndexed,
    look_of_unchanged hdeleted.notes, aliasNames_updateNotebook]
  rfl

theorem performedOp (hlawful : store.Lawful valid) (hvalid : valid inner) {op : LinkingOp}
    {clock : Clock} {update : IndexUpdate}
    (hperform : op.perform store clock inner = .ok (after, update)) :
    PerformedOp store valid op inner after update := by
  cases op with
  | createNote note =>
      obtain ⟨⟨saved, stored⟩, hsaved, heq⟩ := exists_of_map_ok hperform
      obtain ⟨rfl, rfl⟩ := Prod.mk.inj heq
      obtain ⟨hafter, hwrote⟩ := hlawful.createNote hvalid hsaved
      exact ⟨hafter, congrArg AliasKey.note hwrote.stored.id,
        congrArg (Option.map _) hwrote.stored.indexed, WroteNote.storedName hwrote⟩
  | updateNote note =>
      obtain ⟨⟨saved, stored⟩, hsaved, heq⟩ := exists_of_map_ok hperform
      obtain ⟨rfl, rfl⟩ := Prod.mk.inj heq
      obtain ⟨hafter, hwrote⟩ := hlawful.updateNote hvalid hsaved
      exact ⟨hafter, congrArg AliasKey.note hwrote.stored.id,
        congrArg (Option.map _) hwrote.stored.indexed, WroteNote.storedName hwrote⟩
  | deleteNote id =>
      obtain ⟨saved, hsaved, heq⟩ := exists_of_map_ok hperform
      obtain ⟨rfl, rfl⟩ := Prod.mk.inj heq
      obtain ⟨hafter, hdeleted⟩ := hlawful.deleteNote hvalid hsaved
      exact ⟨hafter, rfl, rfl, DeletedNote.storedName hdeleted⟩
  | createNotebook notebook =>
      obtain ⟨⟨saved, stored⟩, hsaved, heq⟩ := exists_of_map_ok hperform
      obtain ⟨rfl, rfl⟩ := Prod.mk.inj heq
      obtain ⟨hafter, hwrote⟩ := hlawful.createNotebook hvalid hsaved
      exact ⟨hafter, congrArg AliasKey.notebook hwrote.stored.id,
        congrArg (Option.map _) hwrote.stored.indexed, WroteNotebook.storedName hwrote⟩
  | updateNotebook notebook =>
      obtain ⟨⟨saved, stored⟩, hsaved, heq⟩ := exists_of_map_ok hperform
      obtain ⟨rfl, rfl⟩ := Prod.mk.inj heq
      obtain ⟨hafter, hwrote⟩ := hlawful.updateNotebook hvalid hsaved
      exact ⟨hafter, congrArg AliasKey.notebook hwrote.stored.id,
        congrArg (Option.map _) hwrote.stored.indexed, WroteNotebook.storedName hwrote⟩
  | deleteNotebook id =>
      obtain ⟨saved, hsaved, heq⟩ := exists_of_map_ok hperform
      obtain ⟨rfl, rfl⟩ := Prod.mk.inj heq
      obtain ⟨hafter, hdeleted⟩ := hlawful.deleteNotebook hvalid hsaved
      exact ⟨hafter, rfl, rfl, DeletedNotebook.storedName hdeleted⟩

/-- Updates at a key depend on the items with that key only. -/
theorem foldl_update_filter {A K V : Type} [DecidableEq K] (key : A → K)
    (value : A → Option V) (keep : A → Bool) {target : K}
    (hkeep : ∀ item, key item = target → keep item = true) (list : List A)
    (start : K → Option V) :
    list.foldl (fun values item => Function.update values (key item) (value item)) start target =
      (list.filter keep).foldl
        (fun values item => Function.update values (key item) (value item)) start target := by
  have hlocal : ∀ (list : List A) (one other : K → Option V), one target = other target →
      list.foldl (fun values item => Function.update values (key item) (value item)) one target =
        list.foldl (fun values item => Function.update values (key item) (value item)) other
          target := by
    intro list
    induction list with
    | nil => exact fun _ _ hsame => hsame
    | cons item rest ih =>
        intro one other hsame
        refine ih _ _ ?_
        simp only [Function.update_apply]
        split
        · rfl
        · exact hsame
  induction list generalizing start with
  | nil => rfl
  | cons item rest ih =>
      rw [List.foldl_cons, ih, List.filter_cons]
      split
      · rfl
      · next hdropped =>
          refine hlocal _ _ _ (Function.update_of_ne ?_ _ _)
          rintro rfl
          exact hdropped (hkeep item rfl)

/-- An index built while others write has of what nobody wrote what the store
had. -/
theorem nameOf_fromSnapshots (hlawful : store.Lawful valid) {build : IndexBuild S}
    (hstart : valid build.start) {notes : List Note} {notebooks : List Notebook}
    (hcollects : build.collects store notes notebooks = true) :
    (AliasIndex.fromSnapshots notes notebooks).Proper ∧ ∀ key ∉ build.touched,
      (AliasIndex.fromSnapshots notes notebooks).nameOf key = storedName store build.start key := by
  have hholds := AliasIndex.holds_fromSnapshots_foldl
  refine ⟨⟨_, _, hholds notes notebooks⟩, fun key hkey => ?_⟩
  unfold IndexBuild.collects at hcollects
  split at hcollects
  · next live liveNotebooks hlive hliveNotebooks =>
      obtain ⟨hsame, hsameNotebooks⟩ := of_decide_eq_true hcollects
      have hstored := (hlawful.holds_fromSnapshots hstart hlive hliveNotebooks).nameOf
      rw [storedName, ← hstored, (hholds notes notebooks).nameOf,
        (hholds live liveNotebooks).nameOf]
      cases key with
      | note id =>
          refine congrArg (Option.map _) ?_
          have hkeep : ∀ note : Note, note.id = id →
              decide (AliasKey.note note.id ∉ build.touched) = true := by
            rintro note rfl
            exact decide_eq_true hkey
          rw [foldl_update_filter Note.id Note.indexed _ hkeep notes,
            foldl_update_filter Note.id Note.indexed _ hkeep live]
          unfold IndexBuild.untouched at hsame
          rw [hsame]
      | notebook id =>
          refine congrArg (Option.map _) ?_
          have hkeep : ∀ notebook : Notebook, notebook.id = id →
              decide (AliasKey.notebook notebook.id ∉ build.touched) = true := by
            rintro notebook rfl
            exact decide_eq_true hkey
          rw [foldl_update_filter Notebook.id Notebook.indexed _ hkeep notebooks,
            foldl_update_filter Notebook.id Notebook.indexed _ hkeep liveNotebooks]
          unfold IndexBuild.untouched at hsameNotebooks
          rw [hsameNotebooks]
  · contradiction

end Store

section Prepared

variable {patterns : LinkSyntax} {idx : AliasIndex} {inbox : List Uuid}

theorem Note.indexed_eq_some_iff {note : Note} {value : String × Uuid} :
    note.indexed = some value ↔ note.deletedAt = none ∧ isInbox note.notebookId = false ∧
      note.alias = some value.1 ∧ note.notebookId = value.2 := by
  unfold Note.indexed
  split
  · next hout =>
      refine iff_of_false (by simp) ?_
      rintro ⟨hlive, hinbox, -⟩
      simp [hlive, hinbox] at hout
  · next hin =>
      rw [not_or, Option.not_isSome_iff_eq_none, Bool.not_eq_true] at hin
      rw [Option.map_eq_some_iff]
      constructor
      · rintro ⟨alias_, halias, rfl⟩
        exact ⟨hin.1, hin.2, halias, rfl⟩
      · rintro ⟨-, -, halias, hnotebook⟩
        exact ⟨value.1, halias, Prod.ext rfl hnotebook⟩

theorem Note.aliasName_eq_some_iff {note : Note} {name : AliasName} :
    note.aliasName = some name ↔ note.deletedAt = none ∧ isInbox note.notebookId = false ∧
      ∃ alias_, note.alias = some alias_ ∧ name = .note alias_ note.notebookId := by
  rw [Note.aliasName, Option.map_eq_some_iff]
  constructor
  · rintro ⟨value, hvalue, rfl⟩
    obtain ⟨hlive, hinbox, halias, hnotebook⟩ := Note.indexed_eq_some_iff.mp hvalue
    exact ⟨hlive, hinbox, value.1, halias, by rw [hnotebook]⟩
  · rintro ⟨hlive, hinbox, alias_, halias, rfl⟩
    exact ⟨(alias_, note.notebookId),
      Note.indexed_eq_some_iff.mpr ⟨hlive, hinbox, halias, rfl⟩, rfl⟩

theorem Notebook.aliasName_eq_some_iff {notebook : Notebook} {name : AliasName} :
    notebook.aliasName = some name ↔ notebook.deletedAt = none ∧
      ∃ alias_, notebook.alias = some alias_ ∧ name = .notebook alias_ := by
  rw [Notebook.aliasName, Option.map_eq_some_iff, Notebook.indexed]
  cases hdeleted : notebook.deletedAt with
  | some ts => simp
  | none =>
      simp only [Option.isSome_none, Bool.false_eq_true, ↓reduceIte, true_and]
      exact exists_congr fun alias_ => and_congr_right fun _ => eq_comm

/-- A note prepared without the index names nothing. -/
theorem aliasName_prepareAlone {note prepared : Note}
    (hprepare : prepareAlone patterns note = some prepared) : prepared.aliasName = none := by
  simp only [prepareAlone] at hprepare
  have hnone : prepared.alias = none := by
    split at hprepare
    · obtain rfl := Option.some.inj hprepare
      rfl
    · obtain ⟨hplain, rfl⟩ := Option.ite_none_right_eq_some.mp hprepare |>.imp_right Option.some.inj
      exact hplain.1
  rw [Option.eq_none_iff_forall_ne_some]
  intro name hname
  obtain ⟨-, -, alias_, halias, -⟩ := Note.aliasName_eq_some_iff.mp hname
  rw [hnone] at halias
  contradiction

theorem LinkingOp.name_prepareAlone {op prepared : LinkingOp}
    (hprepare : op.prepareAlone patterns = some prepared) : prepared.name = none := by
  have hnotebook : ∀ notebook : Notebook, notebook.alias = none → notebook.aliasName = none := by
    intro notebook hnone
    rw [Option.eq_none_iff_forall_ne_some]
    intro name hname
    obtain ⟨-, alias_, halias, -⟩ := Notebook.aliasName_eq_some_iff.mp hname
    rw [hnone] at halias
    contradiction
  cases op with
  | createNote note =>
      obtain ⟨ready, hready, rfl⟩ := Option.map_eq_some_iff.mp hprepare
      exact aliasName_prepareAlone hready
  | updateNote note =>
      obtain ⟨ready, hready, rfl⟩ := Option.map_eq_some_iff.mp hprepare
      exact aliasName_prepareAlone hready
  | deleteNote id =>
      obtain rfl := Option.some.inj hprepare
      rfl
  | createNotebook notebook =>
      obtain ⟨hnone, hready⟩ := Option.ite_none_right_eq_some.mp hprepare
      obtain rfl := Option.some.inj hready
      exact hnotebook notebook hnone
  | updateNotebook notebook =>
      obtain ⟨hnone, hready⟩ := Option.ite_none_right_eq_some.mp hprepare
      obtain rfl := Option.some.inj hready
      exact hnotebook notebook hnone
  | deleteNotebook id =>
      obtain rfl := Option.some.inj hprepare
      rfl

/-- Of the names but that of `key` the index does not have this one. -/
def AliasIndex.Vacant (idx : AliasIndex) (key : AliasKey) (name : AliasName) : Prop :=
  ∀ other, other ≠ key → idx.nameOf other ≠ some name

/-- A note whose alias is not taken names what nothing else in the index does. -/
theorem vacant_prepareWith (hproper : idx.Proper) {note prepared : Note}
    (hprepare : prepareWith patterns idx inbox note = .ok prepared) {name : AliasName}
    (hname : prepared.aliasName = some name) :
    note.alias.isSome = true ∧ idx.Vacant (.note prepared.id) name := by
  simp only [prepareWith] at hprepare
  split at hprepare
  · contradiction
  · next hfree =>
      obtain rfl := Except.ok.inj hprepare
      obtain ⟨-, -, alias_, halias, rfl⟩ := Note.aliasName_eq_some_iff.mp hname
      change note.alias = some alias_ at halias
      refine ⟨by rw [halias]; rfl, fun other hother htaken => hfree ?_⟩
      cases other with
      | note id =>
          have hne : id ≠ note.id := fun heq => hother (congrArg AliasKey.note heq)
          have hfound := AliasIndex.noteAliasTaken_of_nameOf hproper hne htaken
          change (note.alias.any fun alias_ =>
            idx.noteAliasTaken alias_ note.id note.notebookId) = true
          rw [halias]
          exact hfound
      | notebook id =>
          obtain ⟨value, -, heq⟩ := Option.map_eq_some_iff.mp htaken
          contradiction

theorem vacant_ensureFreeWith (hproper : idx.Proper) {notebook prepared : Notebook}
    (hensure : ensureFreeWith idx notebook = .ok prepared) {name : AliasName}
    (hname : prepared.aliasName = some name) :
    notebook.alias.isSome = true ∧ idx.Vacant (.notebook prepared.id) name := by
  unfold ensureFreeWith at hensure
  split at hensure
  · contradiction
  · next hfree =>
      obtain rfl := Except.ok.inj hensure
      obtain ⟨-, alias_, halias, rfl⟩ := Notebook.aliasName_eq_some_iff.mp hname
      refine ⟨by rw [halias]; rfl, fun other hother htaken => hfree ?_⟩
      cases other with
      | note id =>
          obtain ⟨value, -, heq⟩ := Option.map_eq_some_iff.mp htaken
          contradiction
      | notebook id =>
          have hne : id ≠ notebook.id := fun heq => hother (congrArg AliasKey.notebook heq)
          rw [halias]
          exact AliasIndex.notebookAliasTaken_of_nameOf hproper hne htaken

theorem LinkingOp.vacant_prepareWith (hproper : idx.Proper) {op prepared : LinkingOp}
    (hprepare : op.prepareWith patterns idx inbox = .ok prepared) {name : AliasName}
    (hname : prepared.name = some name) :
    op.isAliased = true ∧ idx.Vacant prepared.key name := by
  cases op with
  | createNote note =>
      obtain ⟨ready, hready, rfl⟩ := exists_of_map_ok hprepare
      exact Keeplin.vacant_prepareWith hproper hready hname
  | updateNote note =>
      obtain ⟨ready, hready, rfl⟩ := exists_of_map_ok hprepare
      exact Keeplin.vacant_prepareWith hproper hready hname
  | deleteNote id =>
      obtain rfl := Except.ok.inj hprepare
      contradiction
  | createNotebook notebook =>
      obtain ⟨ready, hready, rfl⟩ := exists_of_map_ok hprepare
      exact vacant_ensureFreeWith hproper hready hname
  | updateNotebook notebook =>
      obtain ⟨ready, hready, rfl⟩ := exists_of_map_ok hprepare
      exact vacant_ensureFreeWith hproper hready hname
  | deleteNotebook id =>
      obtain rfl := Except.ok.inj hprepare
      contradiction

end Prepared

end Keeplin
