/-
Overlapping calls on the linking layer.  As long as no call writes an entity that
another has written and not yet indexed, the index has the alias of every entity
nobody is writing, so the check under the lock keeps aliases unique.
-/
import Keeplin.AliasNames

namespace Keeplin

open StorageBackend

namespace StorageBackend

variable {S Clock : Type} (store : StorageBackend S Clock)

structure AliasesUnique (inner : S) : Prop where
  notes : ∀ one other note note' alias_, store.readNote one inner = .ok note →
    store.readNote other inner = .ok note' → note.deletedAt = none → note'.deletedAt = none →
      isInbox note.notebookId = false → note.notebookId = note'.notebookId →
        note.alias = some alias_ → note'.alias = some alias_ → one = other
  notebooks : ∀ one other notebook notebook' alias_, store.readNotebook one inner = .ok notebook →
    store.readNotebook other inner = .ok notebook' → notebook.deletedAt = none →
      notebook'.deletedAt = none → notebook.alias = some alias_ → notebook'.alias = some alias_ →
        one = other

end StorageBackend

section Names

variable {S Clock : Type} {store : StorageBackend S Clock} {inner : S}

theorem storedName_note_eq_some_iff {id : Uuid} {name : AliasName} :
    storedName store inner (.note id) = some name ↔
      ∃ note, store.readNote id inner = .ok note ∧ note.aliasName = some name := by
  change (look store.readNote Note.indexed inner id).map _ = some name ↔ _
  unfold look
  cases hread : store.readNote id inner with
  | error failure => simp
  | ok note => simp [Note.aliasName]

theorem storedName_notebook_eq_some_iff {id : Uuid} {name : AliasName} :
    storedName store inner (.notebook id) = some name ↔
      ∃ notebook, store.readNotebook id inner = .ok notebook ∧
        notebook.aliasName = some name := by
  change (look store.readNotebook Notebook.indexed inner id).map _ = some name ↔ _
  unfold look
  cases hread : store.readNotebook id inner with
  | error failure => simp
  | ok notebook => simp [Notebook.aliasName]

/-- Unique aliases are names that one entity each has. -/
theorem aliasesUnique_iff : store.AliasesUnique inner ↔
    ∀ one other name, storedName store inner one = some name →
      storedName store inner other = some name → one = other := by
  constructor
  · rintro hunique (one | one) (other | other) name hone hother
    · obtain ⟨note, hread, hname⟩ := storedName_note_eq_some_iff.mp hone
      obtain ⟨note', hread', hname'⟩ := storedName_note_eq_some_iff.mp hother
      obtain ⟨hlive, hinbox, alias_, halias, rfl⟩ := Note.aliasName_eq_some_iff.mp hname
      obtain ⟨hlive', -, alias', halias', hsame⟩ := Note.aliasName_eq_some_iff.mp hname'
      obtain ⟨rfl, hnotebook⟩ := AliasName.note.inj hsame
      exact congrArg AliasKey.note
        (hunique.notes one other note note' _ hread hread' hlive hlive' hinbox hnotebook halias
          halias')
    · obtain ⟨note, -, hname⟩ := storedName_note_eq_some_iff.mp hone
      obtain ⟨notebook, -, hname'⟩ := storedName_notebook_eq_some_iff.mp hother
      obtain ⟨-, -, alias_, -, rfl⟩ := Note.aliasName_eq_some_iff.mp hname
      obtain ⟨-, alias', -, hsame⟩ := Notebook.aliasName_eq_some_iff.mp hname'
      contradiction
    · obtain ⟨notebook, -, hname⟩ := storedName_notebook_eq_some_iff.mp hone
      obtain ⟨note, -, hname'⟩ := storedName_note_eq_some_iff.mp hother
      obtain ⟨-, alias_, -, rfl⟩ := Notebook.aliasName_eq_some_iff.mp hname
      obtain ⟨-, -, alias', -, hsame⟩ := Note.aliasName_eq_some_iff.mp hname'
      contradiction
    · obtain ⟨notebook, hread, hname⟩ := storedName_notebook_eq_some_iff.mp hone
      obtain ⟨notebook', hread', hname'⟩ := storedName_notebook_eq_some_iff.mp hother
      obtain ⟨hlive, alias_, halias, rfl⟩ := Notebook.aliasName_eq_some_iff.mp hname
      obtain ⟨hlive', alias', halias', hsame⟩ := Notebook.aliasName_eq_some_iff.mp hname'
      obtain rfl := AliasName.notebook.inj hsame
      exact congrArg AliasKey.notebook
        (hunique.notebooks one other notebook notebook' _ hread hread' hlive hlive' halias halias')
  · intro hunique
    constructor
    · intro one other note note' alias_ hread hread' hlive hlive' hinbox hnotebook halias halias'
      refine AliasKey.note.inj (hunique _ _ (.note alias_ note.notebookId)
        (storedName_note_eq_some_iff.mpr ⟨note, hread, ?_⟩)
        (storedName_note_eq_some_iff.mpr ⟨note', hread', ?_⟩))
      · exact Note.aliasName_eq_some_iff.mpr ⟨hlive, hinbox, alias_, halias, rfl⟩
      · exact Note.aliasName_eq_some_iff.mpr
          ⟨hlive', hnotebook ▸ hinbox, alias_, halias', by rw [hnotebook]⟩
    · intro one other notebook notebook' alias_ hread hread' hlive hlive' halias halias'
      exact AliasKey.notebook.inj (hunique _ _ (.notebook alias_)
        (storedName_notebook_eq_some_iff.mpr ⟨notebook, hread,
          Notebook.aliasName_eq_some_iff.mpr ⟨hlive, alias_, halias, rfl⟩⟩)
        (storedName_notebook_eq_some_iff.mpr ⟨notebook', hread',
          Notebook.aliasName_eq_some_iff.mpr ⟨hlive', alias_, halias', rfl⟩⟩))

end Names

/-- Whether the call has the lock of alias writes. -/
def LinkingPhase.isLocked : LinkingPhase → Bool
  | .begun op | .building op => op.isAliased
  | .ready _ locked | .written _ locked => locked
  | .queued _ | .done => false

/-- The entity is written and not yet indexed. -/
def LinkingPhase.Pends (phase : LinkingPhase) (key : AliasKey) : Prop :=
  ∃ update locked, phase = .written update locked ∧ update.key = key

namespace LinkingState

variable {S Clock : Type}

def Pending (state : LinkingState S) (key : AliasKey) : Prop :=
  ∃ caller, (state.phases caller).Pends key

/-- No call writes an entity that another has written and not yet indexed. -/
def WritesApart (state : LinkingState S) : LinkingAction Clock → Prop
  | .write caller _ => ∀ op locked, state.phases caller = .ready op locked →
      ¬ state.Pending op.key
  | _ => True

/-- What holds between the steps of calls whose writes are apart. -/
structure Settled (store : StorageBackend S Clock) (valid : S → Prop)
    (state : LinkingState S) : Prop where
  isValid : valid state.inner
  lock : ∀ caller, (state.phases caller).isLocked = true → state.aliasWriteLock = some caller
  proper : ∀ idx, state.aliasIndex = some idx → idx.Proper
  indexed : ∀ idx, state.aliasIndex = some idx → ∀ key, ¬ state.Pending key →
    idx.nameOf key = storedName store state.inner key
  written : ∀ caller update locked, state.phases caller = .written update locked →
    storedName store state.inner update.key = update.name ∧ (update.name ≠ none → locked = true)
  ready : ∀ caller op locked name, state.phases caller = .ready op locked →
    op.name = some name →
      locked = true ∧ ∀ key, key ≠ op.key → storedName store state.inner key ≠ some name
  build : ∀ build, state.build = some build → state.aliasIndex = none ∧ valid build.start ∧
    (∀ key ∉ build.touched, storedName store state.inner key = storedName store build.start key) ∧
    ∀ key ∈ build.touched, state.Pending key
  unique : store.AliasesUnique state.inner

variable {store : StorageBackend S Clock} {patterns : LinkSyntax} {valid : S → Prop}
  {state next : LinkingState S} {caller : Nat}

theorem pending_update {phase : LinkingPhase} (hold : ∀ key, ¬ (state.phases caller).Pends key)
    (hnew : ∀ key, ¬ phase.Pends key) {key : AliasKey} :
    (∃ other, (Function.update state.phases caller phase other).Pends key) ↔
      state.Pending key := by
  constructor
  · rintro ⟨other, hpends⟩
    rw [Function.update_apply] at hpends
    split at hpends
    · exact absurd hpends (hnew key)
    · exact ⟨other, hpends⟩
  · rintro ⟨other, hpends⟩
    refine ⟨other, ?_⟩
    rw [Function.update_of_ne]
    · exact hpends
    · rintro rfl
      exact hold key hpends

/-- A call moves on without a write. -/
theorem Settled.move (hsettled : Settled store valid state) {phase : LinkingPhase}
    {lock : Option Nat} (hold : ∀ key, ¬ (state.phases caller).Pends key)
    (hnew : ∀ key, ¬ phase.Pends key)
    (hlock : ∀ other, (Function.update state.phases caller phase other).isLocked = true →
      lock = some other)
    (hready : ∀ op locked name, phase = .ready op locked → op.name = some name →
      locked = true ∧ ∀ key, key ≠ op.key → storedName store state.inner key ≠ some name) :
    Settled store valid { state.setPhase caller phase with aliasWriteLock := lock } where
  isValid := hsettled.isValid
  lock := hlock
  proper := hsettled.proper
  indexed := fun idx hidx key hkey => hsettled.indexed idx hidx key fun hpending =>
    hkey ((pending_update hold hnew).mpr hpending)
  written := by
    intro other update locked hphase
    simp only [setPhase, Function.update_apply] at hphase
    split at hphase
    · exact absurd ⟨update, locked, hphase, rfl⟩ (hnew update.key)
    · exact hsettled.written other update locked hphase
  ready := by
    intro other op locked name hphase hname
    simp only [setPhase, Function.update_apply] at hphase
    split at hphase
    · exact hready op locked name hphase hname
    · exact hsettled.ready other op locked name hphase hname
  build := by
    intro build hbuild
    obtain ⟨hnone, hstart, hkept, htouched⟩ := hsettled.build build hbuild
    exact ⟨hnone, hstart, hkept, fun key hkey =>
      (pending_update hold hnew).mpr (htouched key hkey)⟩
  unique := hsettled.unique

theorem not_pends {phase : LinkingPhase} (hphase : ∀ update locked, phase ≠ .written update locked)
    (key : AliasKey) : ¬ phase.Pends key := by
  rintro ⟨update, locked, heq, -⟩
  exact hphase update locked heq

/-- A call that keeps what it has of the lock. -/
theorem Settled.lock_update (hsettled : Settled store valid state) {phase : LinkingPhase}
    (hlocked : phase.isLocked = true → (state.phases caller).isLocked = true) (other : Nat)
    (hother : (Function.update state.phases caller phase other).isLocked = true) :
    state.aliasWriteLock = some other := by
  rw [Function.update_apply] at hother
  split at hother
  · next heq => exact heq ▸ hsettled.lock caller (hlocked hother)
  · exact hsettled.lock other hother

theorem Settled.lock_finish (hsettled : Settled store valid state) (other : Nat)
    (hother : (Function.update state.phases caller .done other).isLocked = true) :
    (if (state.phases caller).isLocked then none else state.aliasWriteLock) = some other := by
  rw [Function.update_apply] at hother
  split at hother
  · contradiction
  · next hne =>
      have hheld := hsettled.lock other hother
      split
      · next hlocked =>
          rw [hsettled.lock caller hlocked, Option.some.injEq] at hheld
          exact absurd hheld.symm hne
      · exact hheld

theorem Settled.finish (hsettled : Settled store valid state)
    (hold : ∀ key, ¬ (state.phases caller).Pends key) :
    Settled store valid (state.finish caller (state.phases caller).isLocked) :=
  hsettled.move hold (not_pends fun _ _ heq => by cases heq) hsettled.lock_finish
    fun _ _ _ heq => by cases heq

theorem Settled.resolve (hsettled : Settled store valid state)
    (hold : ∀ key, ¬ (state.phases caller).Pends key) {prepared : Except StorageError LinkingOp}
    (hready : ∀ op, prepared = .ok op → ∀ name, op.name = some name →
      (state.phases caller).isLocked = true ∧
        ∀ key, key ≠ op.key → storedName store state.inner key ≠ some name) :
    Settled store valid (state.resolve caller (state.phases caller).isLocked prepared) := by
  cases prepared with
  | error failure => exact hsettled.finish hold
  | ok op =>
      refine hsettled.move hold (not_pends fun _ _ heq => by cases heq)
        (hsettled.lock_update id) ?_
      intro ready locked name heq hname
      cases heq
      exact hready op rfl name hname

/-- What the index of a call with the lock does not name the store does not
either: whoever wrote such an alias and has not indexed it would have the lock. -/
theorem Settled.vacant (hsettled : Settled store valid state) {idx : AliasIndex}
    (hidx : state.aliasIndex = some idx) (hold : ∀ key, ¬ (state.phases caller).Pends key)
    (hlocked : (state.phases caller).isLocked = true) {key : AliasKey} {name : AliasName}
    (hvacant : idx.Vacant key name) {other : AliasKey} (hother : other ≠ key) :
    storedName store state.inner other ≠ some name := by
  intro hstored
  by_cases hpending : state.Pending other
  · obtain ⟨writer, update, locked, hphase, rfl⟩ := hpending
    obtain ⟨hname, hheld⟩ := hsettled.written writer update locked hphase
    have hwriter : (state.phases writer).isLocked = true := by
      rw [hphase]
      refine hheld fun hnone => ?_
      rw [hname, hnone] at hstored
      contradiction
    have hsame := (hsettled.lock caller hlocked).symm.trans (hsettled.lock writer hwriter)
    rw [Option.some.injEq] at hsame
    exact hold update.key ⟨update, locked, hsame ▸ hphase, rfl⟩
  · exact hvacant other hother ((hsettled.indexed idx hidx other hpending).trans hstored)

theorem Settled.resolveWith (hsettled : Settled store valid state) {idx : AliasIndex}
    (hidx : state.aliasIndex = some idx) {op : LinkingOp}
    (hold : ∀ key, ¬ (state.phases caller).Pends key)
    (hlocked : (state.phases caller).isLocked = op.isAliased) (inbox : List Uuid) :
    Settled store valid
      (state.resolve caller op.isAliased (op.prepareWith patterns idx inbox)) := by
  rw [← hlocked]
  refine hsettled.resolve hold fun ready hready name hname => ?_
  obtain ⟨haliased, hvacant⟩ :=
    LinkingOp.vacant_prepareWith (hsettled.proper idx hidx) hready hname
  rw [← hlocked] at haliased
  exact ⟨haliased, fun key hkey => hsettled.vacant hidx hold haliased hvacant hkey⟩

/-- A write apart from the others keeps the aliases unique, the check having
reserved the name. -/
theorem Settled.write (hlawful : store.Lawful valid) (hsettled : Settled store valid state)
    {op : LinkingOp} {locked : Bool} (hphase : state.phases caller = .ready op locked)
    (hapart : ¬ state.Pending op.key) {clock : Clock} {inner : S} {update : IndexUpdate}
    (hperform : op.perform store clock state.inner = .ok (inner, update)) :
    Settled store valid { state.setPhase caller (.written update locked) with
      inner := inner
      build := state.build.map fun build =>
        { build with touched := update.key :: build.touched } } := by
  obtain ⟨hvalid, hkey, hname, hstored⟩ := performedOp hlawful hsettled.isValid hperform
  have hself : storedName store inner op.key = op.name := by rw [hstored, Function.update_self]
  have hothers : ∀ key, key ≠ op.key → storedName store inner key =
      storedName store state.inner key := by
    intro key hne
    rw [hstored, Function.update_of_ne hne]
  have hreserved : ∀ name, op.name = some name → locked = true ∧
      ∀ key, key ≠ op.key → storedName store state.inner key ≠ some name :=
    fun name => hsettled.ready caller op locked name hphase
  have hpends : (LinkingPhase.written update locked).Pends op.key :=
    ⟨update, locked, rfl, hkey⟩
  have hpending : ∀ key, state.Pending key →
      ∃ other, (Function.update state.phases caller (.written update locked) other).Pends key := by
    rintro key ⟨other, hother⟩
    refine ⟨other, ?_⟩
    rw [Function.update_of_ne]
    · exact hother
    · rintro rfl
      obtain ⟨_, _, heq, -⟩ := hother
      rw [hphase] at heq
      contradiction
  refine ⟨hvalid, ?_, hsettled.proper, ?_, ?_, ?_, ?_, ?_⟩
  · refine hsettled.lock_update fun hlocked => ?_
    rw [hphase]
    exact hlocked
  · intro idx hidx key hkeyPending
    have hne : key ≠ op.key := by
      rintro rfl
      exact hkeyPending ⟨caller, by simpa [setPhase] using hpends⟩
    exact (hsettled.indexed idx hidx key fun hpend => hkeyPending (hpending key hpend)).trans
      (hothers key hne).symm
  · intro other update' locked' hother
    simp only [setPhase, Function.update_apply] at hother
    split at hother
    · cases hother
      refine ⟨by rw [hkey, hself, hname], fun hsome => ?_⟩
      obtain ⟨name, hsome⟩ := Option.ne_none_iff_exists'.mp hsome
      exact (hreserved name (hname ▸ hsome)).1
    · obtain ⟨hwritten, hheld⟩ := hsettled.written other update' locked' hother
      have hne : update'.key ≠ op.key := fun heq =>
        hapart ⟨other, update', locked', hother, heq⟩
      exact ⟨(hothers _ hne).trans hwritten, hheld⟩
  · intro other op' locked' name hother hsome
    simp only [setPhase, Function.update_apply] at hother
    split at hother
    · contradiction
    · next hne =>
        obtain ⟨hheld, hvacant⟩ := hsettled.ready other op' locked' name hother hsome
        refine ⟨hheld, fun key hkey' => ?_⟩
        by_cases hwritten : key = op.key
        · subst hwritten
          rw [hself]
          intro hclash
          -- Both calls would have the lock.
          have hlockCaller := hsettled.lock caller (by rw [hphase]; exact (hreserved name hclash).1)
          have hlockOther := hsettled.lock other (by rw [hother]; exact hheld)
          exact hne (Option.some.inj (hlockOther.symm.trans hlockCaller))
        · rw [hothers key hwritten]
          exact hvacant key hkey'
  · intro build hbuild
    obtain ⟨old, hold, rfl⟩ := Option.map_eq_some_iff.mp hbuild
    obtain ⟨hnone, hstart, hkept, htouched⟩ := hsettled.build old hold
    refine ⟨hnone, hstart, fun key hnew => ?_, fun key hmem => ?_⟩
    · rw [List.mem_cons, not_or] at hnew
      obtain ⟨hne, hnew⟩ := hnew
      rw [hothers key (hkey ▸ hne)]
      exact hkept key hnew
    · rcases List.mem_cons.mp hmem with rfl | hmem
      · exact ⟨caller, by simpa [setPhase, hkey] using hpends⟩
      · exact hpending key (htouched key hmem)
  · rw [aliasesUnique_iff]
    have hunique := aliasesUnique_iff.mp hsettled.unique
    intro one other name hone hother
    by_cases hfirst : one = op.key
    · by_cases hsecond : other = op.key
      · rw [hfirst, hsecond]
      · subst hfirst
        rw [hself] at hone
        rw [hothers other hsecond] at hother
        exact absurd hother ((hreserved name hone).2 other hsecond)
    · by_cases hsecond : other = op.key
      · subst hsecond
        rw [hself] at hother
        rw [hothers one hfirst] at hone
        exact absurd hone ((hreserved name hother).2 one hfirst)
      · rw [hothers one hfirst] at hone
        rw [hothers other hsecond] at hother
        exact hunique one other name hone hother

/-- The index catches up with a write. -/
theorem Settled.index (hsettled : Settled store valid state) {update : IndexUpdate}
    {locked : Bool} (hphase : state.phases caller = .written update locked)
    (hbuild : state.build = none) :
    Settled store valid (LinkingState.finish
      { state with aliasIndex := state.aliasIndex.map update.perform } caller locked) := by
  obtain ⟨hwritten, -⟩ := hsettled.written caller update locked hphase
  have hlocked : (state.phases caller).isLocked = locked := by rw [hphase]; rfl
  refine ⟨hsettled.isValid, hlocked ▸ hsettled.lock_finish, ?_, ?_, ?_, ?_, ?_, hsettled.unique⟩
  · intro idx hidx
    obtain ⟨old, hold, rfl⟩ := Option.map_eq_some_iff.mp hidx
    exact ((hsettled.proper old hold).perform update).1
  · intro idx hidx key hkey
    obtain ⟨old, hold, rfl⟩ := Option.map_eq_some_iff.mp hidx
    change (update.perform old).nameOf key = storedName store state.inner key
    rw [((hsettled.proper old hold).perform update).2, Function.update_apply]
    split
    · next heq => rw [heq, hwritten]
    · next hne =>
        refine hsettled.indexed old hold key fun hpending => hkey ?_
        obtain ⟨other, hother⟩ := hpending
        refine ⟨other, ?_⟩
        change (Function.update state.phases caller .done other).Pends key
        rw [Function.update_of_ne]
        · exact hother
        · rintro rfl
          obtain ⟨_, _, heq, hkey'⟩ := hother
          rw [hphase] at heq
          cases heq
          exact hne hkey'.symm
  · intro other update' locked' hother
    simp only [LinkingState.finish, setPhase, Function.update_apply] at hother
    split at hother
    · contradiction
    · exact hsettled.written other update' locked' hother
  · intro other op' locked' name hother
    simp only [LinkingState.finish, setPhase, Function.update_apply] at hother
    split at hother
    · contradiction
    · exact hsettled.ready other op' locked' name hother
  · intro build hsome
    change state.build = some build at hsome
    rw [hbuild] at hsome
    contradiction

theorem Settled.built (hlawful : store.Lawful valid) (hsettled : Settled store valid state)
    {build : IndexBuild S} (hbuild : state.build = some build) {notes : List Note}
    {notebooks : List Notebook} (hcollects : build.collects store notes notebooks = true) :
    Settled store valid { state with
      aliasIndex := some (AliasIndex.fromSnapshots notes notebooks), build := none } := by
  obtain ⟨-, hstart, hkept, htouched⟩ := hsettled.build build hbuild
  obtain ⟨hproper, hnames⟩ := nameOf_fromSnapshots hlawful hstart hcollects
  refine { hsettled with proper := ?_, indexed := ?_, build := ?_ }
  · rintro idx hidx
    obtain rfl := Option.some.inj hidx
    exact hproper
  · intro idx hidx key hkey
    obtain rfl := Option.some.inj hidx
    have huntouched : key ∉ build.touched := fun hmem => hkey (htouched key hmem)
    exact (hnames key huntouched).trans (hkept key huntouched).symm
  · intro other hother
    contradiction

theorem Settled.step_enter (hsettled : Settled store valid state)
    (hstep : step store patterns state (.enter caller) = some next) :
    Settled store valid next := by
  simp only [LinkingState.step] at hstep
  split at hstep
  · next op hphase =>
      have hold : ∀ key, ¬ (state.phases caller).Pends key :=
        not_pends fun _ _ heq => by rw [hphase] at heq; cases heq
      have hnew : ∀ key, ¬ (LinkingPhase.begun op).Pends key :=
        not_pends fun _ _ heq => by cases heq
      split at hstep
      · next haliased =>
          obtain rfl := Option.some.inj hstep
          refine hsettled.move hold hnew (hsettled.lock_update fun hlocked => ?_)
            fun _ _ _ heq => by cases heq
          change op.isAliased = true at hlocked
          rw [hlocked] at haliased
          contradiction
      · split at hstep
        · next hfree =>
            obtain rfl := Option.some.inj hstep
            refine hsettled.move hold hnew (fun other hother => ?_)
              fun _ _ _ heq => by cases heq
            rw [Function.update_apply] at hother
            split at hother
            · next heq => rw [heq]
            · have hheld := hsettled.lock other hother
              rw [hfree] at hheld
              contradiction
        · contradiction
  · contradiction

theorem Settled.step_prepare (hsettled : Settled store valid state) {inbox : List Uuid}
    (hstep : step store patterns state (.prepare caller inbox) = some next) :
    Settled store valid next := by
  simp only [LinkingState.step] at hstep
  split at hstep
  · next op hphase =>
      have hold : ∀ key, ¬ (state.phases caller).Pends key :=
        not_pends fun _ _ heq => by rw [hphase] at heq; cases heq
      have hlocked : (state.phases caller).isLocked = op.isAliased := by rw [hphase]; rfl
      split at hstep
      · next prepared hprepare =>
          obtain rfl := Option.some.inj hstep
          refine hsettled.move hold (not_pends fun _ _ heq => by cases heq)
            (hsettled.lock_update fun hready => hlocked.trans hready) ?_
          intro ready locked name heq hname
          cases heq
          rw [LinkingOp.name_prepareAlone hprepare] at hname
          contradiction
      · split at hstep
        · next idx hidx hnone =>
            obtain rfl := Option.some.inj hstep
            exact hsettled.resolveWith hidx hold hlocked inbox
        · contradiction
  · contradiction

theorem Settled.step_buildIndex (hsettled : Settled store valid state)
    (hstep : step store patterns state (.buildIndex caller) = some next) :
    Settled store valid next := by
  simp only [LinkingState.step] at hstep
  split at hstep
  · next op hphase hidx hbuild =>
      split at hstep
      · obtain rfl := Option.some.inj hstep
        have hold : ∀ key, ¬ (state.phases caller).Pends key :=
          not_pends fun _ _ heq => by rw [hphase] at heq; cases heq
        have hmoved : Settled store valid { state.setPhase caller (.building op) with
            aliasWriteLock := state.aliasWriteLock } :=
          hsettled.move hold (not_pends fun _ _ heq => by cases heq)
            (hsettled.lock_update fun hlocked => by rw [hphase]; exact hlocked)
            fun _ _ _ heq => by cases heq
        refine { hmoved with build := ?_ }
        rintro build hsome
        obtain rfl := Option.some.inj hsome
        exact ⟨hidx, hsettled.isValid, fun key _ => rfl, fun key hkey => by cases hkey⟩
      · contradiction
  · contradiction

theorem Settled.step_finishBuild (hlawful : store.Lawful valid)
    (hsettled : Settled store valid state) {notes : List Note} {notebooks : List Notebook}
    {inbox : List Uuid}
    (hstep : step store patterns state (.finishBuild caller notes notebooks inbox) = some next) :
    Settled store valid next := by
  simp only [LinkingState.step] at hstep
  split at hstep
  · next op build hphase hbuild =>
      split at hstep
      · next hcollects =>
          obtain rfl := Option.some.inj hstep
          refine (hsettled.built hlawful hbuild hcollects).resolveWith rfl
            (not_pends fun _ _ heq => ?_) ?_ inbox
          · change state.phases caller = _ at heq
            rw [hphase] at heq
            contradiction
          · change (state.phases caller).isLocked = _
            rw [hphase]
            rfl
      · contradiction
  · contradiction

theorem Settled.step_failBuild (hsettled : Settled store valid state)
    (hstep : step store patterns state (.failBuild caller) = some next) :
    Settled store valid next := by
  simp only [LinkingState.step] at hstep
  split at hstep
  · next op hphase =>
      obtain rfl := Option.some.inj hstep
      have hdropped : Settled store valid { state with build := none } :=
        { hsettled with build := fun _ hsome => by cases hsome }
      have hfinished : Settled store valid (LinkingState.finish
          { state with build := none } caller (state.phases caller).isLocked) := by
        refine hdropped.finish (not_pends fun _ _ heq => ?_)
        change state.phases caller = _ at heq
        rw [hphase] at heq
        cases heq
      rw [hphase] at hfinished
      exact hfinished
  · contradiction

theorem Settled.step_write (hlawful : store.Lawful valid) (hsettled : Settled store valid state)
    {clock : Clock} (hapart : state.WritesApart (.write caller clock))
    (hstep : step store patterns state (.write caller clock) = some next) :
    Settled store valid next := by
  simp only [LinkingState.step] at hstep
  split at hstep
  · next op locked hphase =>
      split at hstep
      · obtain rfl := Option.some.inj hstep
        have hfinished : Settled store valid
            (state.finish caller (state.phases caller).isLocked) :=
          hsettled.finish (not_pends fun _ _ heq => by rw [hphase] at heq; cases heq)
        rw [hphase] at hfinished
        exact hfinished
      · next inner update hperform =>
          obtain rfl := Option.some.inj hstep
          exact hsettled.write hlawful hphase (hapart op locked hphase) hperform
  · contradiction

theorem Settled.step_index (hsettled : Settled store valid state)
    (hstep : step store patterns state (.index caller) = some next) :
    Settled store valid next := by
  simp only [LinkingState.step] at hstep
  split at hstep
  · next update locked hphase hbuild =>
      obtain rfl := Option.some.inj hstep
      exact hsettled.index hphase hbuild
  · contradiction

theorem Settled.step (hlawful : store.Lawful valid) (hsettled : Settled store valid state)
    {action : LinkingAction Clock} (hapart : state.WritesApart action)
    (hstep : step store patterns state action = some next) : Settled store valid next := by
  cases action with
  | enter => exact hsettled.step_enter hstep
  | prepare => exact hsettled.step_prepare hstep
  | buildIndex => exact hsettled.step_buildIndex hstep
  | finishBuild => exact hsettled.step_finishBuild hlawful hstep
  | failBuild => exact hsettled.step_failBuild hstep
  | write => exact hsettled.step_write hlawful hapart hstep
  | index => exact hsettled.step_index hstep

/-- No call has begun, and there is no index yet. -/
structure Fresh (state : LinkingState S) : Prop where
  aliasIndex : state.aliasIndex = none
  build : state.build = none
  phases : ∀ caller, state.phases caller = .done ∨ ∃ op, state.phases caller = .queued op

theorem Fresh.settled (hfresh : state.Fresh) (hvalid : valid state.inner)
    (hunique : store.AliasesUnique state.inner) : Settled store valid state := by
  have hphases : ∀ caller phase, state.phases caller = phase →
      phase = .done ∨ ∃ op, phase = .queued op := fun caller phase heq => heq ▸ hfresh.phases caller
  refine ⟨hvalid, ?_, ?_, ?_, ?_, ?_, ?_, hunique⟩
  · intro caller hlocked
    rcases hfresh.phases caller with hphase | ⟨op, hphase⟩ <;> rw [hphase] at hlocked <;>
      contradiction
  · intro idx hidx
    rw [hfresh.aliasIndex] at hidx
    contradiction
  · intro idx hidx
    rw [hfresh.aliasIndex] at hidx
    contradiction
  · intro caller update locked hphase
    rcases hphases caller _ hphase with heq | ⟨op, heq⟩ <;> cases heq
  · intro caller op locked name hphase
    rcases hphases caller _ hphase with heq | ⟨op, heq⟩ <;> cases heq
  · intro build hbuild
    rw [hfresh.build] at hbuild
    contradiction

/-- In every run of overlapping calls whose writes are apart no alias is in use
twice. -/
theorem run_aliasesUnique (store : StorageBackend S Clock) (patterns : LinkSyntax)
    (hlawful : store.Lawful valid) (hfresh : state.Fresh) (hvalid : valid state.inner)
    (hunique : store.AliasesUnique state.inner) {actions : List (LinkingAction Clock)}
    (hmeets : MeetsAll (step store patterns) WritesApart state actions)
    (hrun : runAll (step store patterns) state actions = some next) :
    store.AliasesUnique next.inner :=
  (runAll_invariant_of_meetsAll (step store patterns)
    (fun _ _ _ hkept hapart hstep => Settled.step hlawful hkept hapart hstep)
    (hfresh.settled hvalid hunique) hmeets hrun).unique

end LinkingState

namespace AliasUniquenessWitness

open LinkingState LinkingIndexWitness

def aliased (id : Uuid) : Note := note id (some "a")

/-- A note is created, deleted and at the same time restored; another then asks for
its alias. -/
def phases : Nat → LinkingPhase
  | 0 => .queued (.createNote (aliased 1))
  | 1 => .queued (.deleteNote 1)
  | 2 => .queued (.updateNote (aliased 1))
  | 3 => .queued (.createNote (aliased 2))
  | _ => .done

def start : LinkingState Db := ⟨db, none, none, none, phases⟩

theorem start_fresh : start.Fresh := by
  refine ⟨rfl, rfl, fun caller => ?_⟩
  change phases caller = .done ∨ _
  unfold phases
  split
  all_goals first | exact .inl rfl | exact .inr ⟨_, rfl⟩

theorem start_unique : Db.storage.AliasesUnique start.inner := by
  have hnone : ∀ id note, Db.storage.readNote id db ≠ .ok note := by
    intro id note hread
    change db.readNote id = .ok note at hread
    obtain ⟨row, hrow, -⟩ := Db.readNote_ok_iff.mp hread
    simp [db] at hrow
  have hnoneNotebook : ∀ id notebook, Db.storage.readNotebook id db ≠ .ok notebook := by
    intro id notebook hread
    change db.readNotebook id = .ok notebook at hread
    obtain ⟨row, hrow, -⟩ := Db.readNotebook_ok_iff.mp hread
    simp [db] at hrow
  exact ⟨fun one _ note _ _ hread => absurd hread (hnone one note),
    fun one _ notebook _ _ hread => absurd hread (hnoneNotebook one notebook)⟩

/-- The delete reaches the index after the restore. -/
def lateRemoval : List (LinkingAction DbClock) :=
  [.enter 0, .buildIndex 0, .finishBuild 0 [] [] [], .write 0 ⟨1, 1⟩, .index 0,
    .enter 1, .prepare 1 [], .write 1 ⟨2, 2⟩,
    .enter 2, .prepare 2 [], .write 2 ⟨3, 3⟩, .index 2, .index 1,
    .enter 3, .prepare 3 [], .write 3 ⟨4, 4⟩]

theorem late_removal_shares_alias :
    start.Fresh ∧ Db.storage.AliasesUnique start.inner ∧
      ∃ final, runAll (step Db.storage patterns) start lateRemoval = some final ∧
        ¬ Db.storage.AliasesUnique final.inner := by
  refine ⟨start_fresh, start_unique, _, rfl, fun hunique => ?_⟩
  have hsame := hunique.notes 1 2 _ _ "a" rfl rfl rfl rfl rfl rfl rfl rfl
  contradiction

/-- The delete begins while the create is on its way to the index, and writes after
it. -/
def writesInTurn : List (LinkingAction DbClock) :=
  [.enter 0, .buildIndex 0, .finishBuild 0 [] [] [], .write 0 ⟨1, 1⟩, .enter 1, .prepare 1 [],
    .index 0, .write 1 ⟨2, 2⟩]

theorem writesInTurn_apart :
    MeetsAll (step Db.storage patterns) WritesApart start writesInTurn := by
  refine ⟨trivial, fun s1 h1 => ⟨trivial, fun s2 h2 => ⟨trivial, fun s3 h3 => ⟨?_, fun s4 h4 =>
    ⟨trivial, fun s5 h5 => ⟨trivial, fun s6 h6 => ⟨trivial, fun s7 h7 => ⟨?_, fun s8 h8 =>
      trivial⟩⟩⟩⟩⟩⟩⟩⟩
  · obtain rfl := Option.some.inj h1
    obtain rfl := Option.some.inj h2
    obtain rfl := Option.some.inj h3
    rintro op locked - ⟨other, update, locked', hphase, -⟩
    rcases other with _ | _ | _ | _ | other <;> cases hphase
  · obtain rfl := Option.some.inj h1
    obtain rfl := Option.some.inj h2
    obtain rfl := Option.some.inj h3
    obtain rfl := Option.some.inj h4
    obtain rfl := Option.some.inj h5
    obtain rfl := Option.some.inj h6
    obtain rfl := Option.some.inj h7
    rintro op locked - ⟨other, update, locked', hphase, -⟩
    rcases other with _ | _ | _ | _ | other <;> cases hphase

theorem run_aliasesUnique_in_turn :
    ∃ final, runAll (step Db.storage patterns) start writesInTurn = some final ∧
      Db.storage.AliasesUnique final.inner := by
  obtain ⟨final, hrun⟩ : ∃ final,
      runAll (step Db.storage patterns) start writesInTurn = some final := ⟨_, rfl⟩
  exact ⟨final, hrun, run_aliasesUnique Db.storage patterns Db.lawful_storage start_fresh trivial
    start_unique writesInTurn_apart hrun⟩

end AliasUniquenessWitness

end Keeplin
