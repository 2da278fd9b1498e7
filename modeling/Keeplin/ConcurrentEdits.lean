/-
Two local edits of one sidecar under way at once.  Each reads the stored vector,
writes the sidecar and appends to the journal, and only the append is under a
lock; it may be followed by a compaction of the journal.
-/
import Keeplin.EditReplay

namespace Keeplin

open VersionVector

inductive EditStage where
  | called
  /-- The vector is read and the sidecar is not yet written. -/
  | prepared (mutation : Mutation)
  | written (record : LogRecord)
  | returned (record : LogRecord)
  | refused

/-- The version a call has stored. -/
def EditStage.stored? : EditStage → Option LogRecord
  | .written record | .returned record => some record
  | _ => none

/-- The version a call has stored or is about to. -/
def EditStage.record? : EditStage → Option LogRecord
  | .prepared mutation => some mutation.record
  | .written record | .returned record => some record
  | _ => none

def EditStage.isPrepared : EditStage → Bool
  | .prepared _ => true
  | _ => false

theorem EditStage.ne_prepared {stage : EditStage} (hstage : stage.isPrepared = false)
    (mutation : Mutation) : stage ≠ .prepared mutation := by
  rintro rfl
  contradiction

structure EditWorld where
  tree : FsTree
  log : GlobalLog
  calls : Bool → EditStage

inductive EditAction where
  | read (call : Bool) (ts : DateTime)
  | write (call : Bool) (place : Uuid → Nat)
  /-- The entry is appended, and a journal that has grown long is compacted. -/
  | appendLog (call : Bool) (now : DateTime) (compaction : Option DateTime)

namespace EditWorld

def step (contentHash : List UInt8 → String) (edits : Bool → LocalWrite)
    (world : EditWorld) : EditAction → Option EditWorld
  | .read call ts =>
      match world.calls call, world.tree.localWrite contentHash ts (edits call) with
      | .called, some (.ok mutation) =>
          some { world with calls := Function.update world.calls call (.prepared mutation) }
      | .called, some (.error _) =>
          some { world with calls := Function.update world.calls call .refused }
      | _, _ => none
  | .write call place =>
      match world.calls call with
      | .prepared mutation =>
          some { world with
            tree := world.tree.performAll place mutation.writes
            calls := Function.update world.calls call (.written mutation.record) }
      | _ => none
  | .appendLog call now compaction =>
      match world.calls call with
      | .written record =>
          let appended := { world.log with entries := world.log.entries ++ [record.at now] }
          some { world with
            log := match compaction with
              | none => appended
              | some ts => world.tree.compactGlobalLogLocked ts appended
            calls := Function.update world.calls call (.returned record) }
      | _ => none

/-- No call reads the vector while the other is about to write one. -/
def ReadsApart (world : EditWorld) : EditAction → Prop
  | .read call _ => (world.calls (!call)).isPrepared = false
  | _ => True

instance (world : EditWorld) (action : EditAction) : Decidable (world.ReadsApart action) :=
  match action with
  | .read call _ => inferInstanceAs (Decidable ((world.calls (!call)).isPrepared = false))
  | .write _ _ | .appendLog _ _ _ => isTrue trivial

/-- A compaction that comes after both writes finds an entity that a snapshot
tells all of. -/
def SnapshotsWhole (entity : Entity) (world : EditWorld) : EditAction → Prop
  | .appendLog call _ (some _) => (world.calls (!call)).stored?.isSome = true →
      world.tree.ToldWhole entity
  | _ => True

instance (entity : Entity) (world : EditWorld) (action : EditAction) :
    Decidable (world.SnapshotsWhole entity action) :=
  match action with
  | .appendLog call _ (some _) => inferInstanceAs
      (Decidable ((world.calls (!call)).stored?.isSome = true → world.tree.ToldWhole entity))
  | .appendLog _ _ none | .read _ _ | .write _ _ => isTrue trivial

end EditWorld

/-- A device before the edits: its sidecars are filed under their identifiers,
and what its journal has told of the entity is no later than what it stores. -/
structure EditWorld.Settled (world : EditWorld) (entity : Entity) : Prop where
  called : ∀ call, world.calls call = .called
  named : world.tree.Named
  told : ∀ entry ∈ world.log.entries, ∀ vv, entry.Tells entity vv →
    dominates (world.tree.slot entity).vv vv = true

/-- A peer that has nothing of the entity which the device does not know, and has
read the journal to some point. -/
structure FsTree.FollowsTo (peer : FsTree) (cursor : LogCursor) (world : EditWorld)
    (entity : Entity) : Prop where
  readable : peer.slot entity ≠ .unreadable
  known : dominates (world.tree.slot entity).vv (peer.slot entity).vv = true
  cursor : cursor.Within world.log

namespace EditWorld

open FsTree

section Run

variable (contentHash : List UInt8 → String) (entity : Entity) (peer : FsTree)
  (cursor : LogCursor)

/-- Before both calls have written: all that is told and stored of the entity is
no later than the sidecar, and a call that is about to write has read it. -/
structure Underway (world : EditWorld) : Prop where
  named : world.tree.Named
  within : cursor.Within world.log
  known : dominates (world.tree.slot entity).vv (peer.slot entity).vv = true
  told : ∀ entry ∈ world.log.entries, TellsUpTo entity (world.tree.slot entity).vv entry
  stored : ∀ call record, (world.calls call).stored? = some record →
    LogRecord.Known (world.tree.slot entity).vv record
  ready : ∀ call mutation, world.calls call = .prepared mutation →
    (∃ made change, Edited contentHash entity world.tree mutation made change) ∧
      ∀ other, world.calls (!call) ≠ .prepared other
  unwritten : ∃ call, (world.calls call).stored? = none

/-- After both: `call` wrote last, over `before`, and the journal has its record
or is going to. -/
structure Latest (world : EditWorld) (call : Bool) (before : FsTree) (mutation : Mutation)
    (made : TreeWrite) (change : Change) : Prop where
  named : world.tree.Named
  within : cursor.Within world.log
  known : dominates (before.slot entity).vv (peer.slot entity).vv = true
  edited : Edited contentHash entity before mutation made change
  tree : ∃ place, world.tree = before.perform place made
  mine : world.calls call = .written mutation.record ∨
    (world.calls call = .returned mutation.record ∧
      ∃ entry ∈ world.log.readFrom cursor, Retells contentHash entity made change.version.vv entry)
  other : ∃ record, (world.calls (!call)).stored? = some record ∧
    LogRecord.Known (before.slot entity).vv record
  entries : ∀ entry ∈ world.log.entries, TellsUpTo entity (before.slot entity).vv entry ∨
    Retells contentHash entity made change.version.vv entry

/-- What holds of two calls in which no one read while the other was about to
write. -/
def Apart (world : EditWorld) : Prop :=
  Underway contentHash entity peer cursor world ∨
    ∃ call before mutation made change,
      Latest contentHash entity peer cursor world call before mutation made change

variable {contentHash} {entity} {peer} {cursor} {world next : EditWorld}
  {edits : Bool → LocalWrite}

theorem stored?_update (calls : Bool → EditStage) (call other : Bool) (stage : EditStage) :
    (Function.update calls call stage other).stored? =
      if other = call then stage.stored? else (calls other).stored? := by
  rw [Function.update_apply]
  split <;> rfl

theorem Underway.read (hunder : Underway contentHash entity peer cursor world)
    {call : Bool} {ts : DateTime} (hedit : (edits call).isEdit = true)
    (hentity : (edits call).entity = entity) (hapart : ReadsApart world (.read call ts))
    (hstep : step contentHash edits world (.read call ts) = some next) :
    Underway contentHash entity peer cursor next := by
  simp only [step] at hstep
  split at hstep
  · next mutation hcalled hwrite =>
      cases hstep
      refine ⟨hunder.named, hunder.within, hunder.known, hunder.told, ?_, ?_, call, ?_⟩
      · intro other record hrecord
        rw [stored?_update] at hrecord
        split at hrecord
        · contradiction
        · exact hunder.stored other record hrecord
      · intro other prepared hprepared
        simp only [Function.update_apply] at hprepared
        split at hprepared
        · next heq =>
            cases hprepared
            subst heq
            refine ⟨hentity ▸ edit_edited hedit hwrite, fun second hsecond => ?_⟩
            simp only [Function.update_apply, Bool.not_eq_self, ↓reduceIte] at hsecond
            exact EditStage.ne_prepared hapart second hsecond
        · next hne =>
            -- The other call cannot be about to write.
            obtain rfl : other = !call := Bool.eq_not.mpr hne
            exact absurd hprepared (EditStage.ne_prepared hapart prepared)
      · rw [stored?_update, if_pos rfl]
        rfl
  · next failure hcalled hwrite =>
      cases hstep
      refine ⟨hunder.named, hunder.within, hunder.known, hunder.told, ?_, ?_, call, ?_⟩
      · intro other record hrecord
        rw [stored?_update] at hrecord
        split at hrecord
        · contradiction
        · exact hunder.stored other record hrecord
      · intro other prepared hprepared
        simp only [Function.update_apply] at hprepared
        split at hprepared
        · contradiction
        · refine ⟨(hunder.ready other prepared hprepared).1, fun second hsecond => ?_⟩
          simp only [Function.update_apply] at hsecond
          split at hsecond
          · contradiction
          · exact (hunder.ready other prepared hprepared).2 second hsecond
      · rw [stored?_update, if_pos rfl]
        rfl
  · contradiction

theorem Underway.write (hunder : Underway contentHash entity peer cursor world)
    {call : Bool} {place : Uuid → Nat}
    (hstep : step contentHash edits world (.write call place) = some next) :
    Apart contentHash entity peer cursor next := by
  simp only [step] at hstep
  split at hstep
  · next mutation hprepared =>
      cases hstep
      obtain ⟨⟨made, change, hedited⟩, hother⟩ := hunder.ready call mutation hprepared
      obtain ⟨hmade, hnamed, hslot, hgrows⟩ := hedited.perform place hunder.named
      rw [hmade]
      cases hstored : (world.calls (!call)).stored? with
      | none =>
          refine .inl ⟨hnamed, hunder.within, ?_, ?_, ?_, ?_, !call, ?_⟩
          · rw [hslot]
            exact dominates_trans hgrows hunder.known
          · intro entry hentry
            rw [hslot]
            exact TellsUpTo.mono (hunder.told entry hentry) hgrows
          · intro other record hrecord
            rw [hslot]
            rw [stored?_update] at hrecord
            split at hrecord
            · cases hrecord
              exact hedited.known
            · exact (hunder.stored other record hrecord).mono hgrows
          · intro other prepared hagain
            simp only [Function.update_apply] at hagain
            split at hagain
            · contradiction
            · next hne =>
                obtain rfl : other = !call := Bool.eq_not.mpr hne
                exact absurd hagain (hother prepared)
          · rw [stored?_update, if_neg (by simp), hstored]
      | some record =>
          refine .inr ⟨call, world.tree, mutation, made, change, hnamed, hunder.within,
            hunder.known, hedited, ⟨place, rfl⟩, .inl ?_, ⟨record, ?_,
              hunder.stored (!call) record hstored⟩, fun entry hentry =>
              .inl (hunder.told entry hentry)⟩
          · exact Function.update_self ..
          · rw [stored?_update, if_neg (by simp), hstored]
  · contradiction

/-- A compaction is reached with the entry appended, and leaves that or the
snapshot in a new epoch. -/
theorem appendLog_cases {call : Bool} {now : DateTime} {compaction : Option DateTime}
    (hstep : step contentHash edits world (.appendLog call now compaction) = some next) :
    ∃ record, world.calls call = .written record ∧ next.tree = world.tree ∧
      next.calls = Function.update world.calls call (.returned record) ∧
      (next.log = ⟨world.log.epoch, world.log.entries ++ [record.at now]⟩ ∨
        ∃ ts, compaction = some ts ∧
          next.log = ⟨world.log.epoch + 1, (world.tree.buildGlobalSnapshot ts).1⟩) := by
  simp only [step] at hstep
  split at hstep
  · next record hwritten =>
      cases hstep
      refine ⟨record, hwritten, rfl, rfl, ?_⟩
      cases compaction with
      | none => exact .inl rfl
      | some ts =>
          rcases world.tree.compactGlobalLogLocked_cases ts
            ⟨world.log.epoch, world.log.entries ++ [record.at now]⟩ with hkept | hsnapshot
          · exact .inl hkept
          · exact .inr ⟨ts, rfl, hsnapshot⟩
  · contradiction

theorem within_of_append {before after : GlobalLog} {entries : List LogEntry}
    (hwithin : cursor.Within before)
    (hafter : after = ⟨before.epoch, before.entries ++ entries⟩) : cursor.Within after := by
  subst hafter
  rcases hwithin with hlater | ⟨hsame, hoffset⟩
  · exact .inl hlater
  · refine .inr ⟨hsame, ?_⟩
    rw [List.length_append]
    exact Nat.le_add_right_of_le hoffset

theorem within_of_next {before : GlobalLog} (hwithin : cursor.Within before)
    (entries : List LogEntry) : cursor.Within ⟨before.epoch + 1, entries⟩ := by
  rcases hwithin with hlater | ⟨hsame, -⟩
  · exact .inl (Nat.lt_succ_of_lt hlater)
  · exact .inl (hsame ▸ Nat.lt_succ_self _)

theorem path_of_hasSidecar (hsidecar : entity.hasSidecar = true) :
    ∃ path : SidecarPath, path.entity = entity := by
  cases entity with
  | notebook id => exact ⟨.notebook id, rfl⟩
  | tag id => exact ⟨.tag id, rfl⟩
  | noteTag noteId tagId => exact ⟨.noteTag noteId tagId, rfl⟩
  | note id | resource id => contradiction

/-- A snapshot tells of the entity what its slot has. -/
theorem tellsUpTo_snapshot {tree : FsTree} (hnamed : tree.Named)
    (hsidecar : entity.hasSidecar = true) {ts : DateTime} {entry : LogEntry}
    (hentry : entry ∈ (tree.buildGlobalSnapshot ts).1) :
    TellsUpTo entity (tree.slot entity).vv entry := by
  intro change hchange hentity
  obtain ⟨path, rfl⟩ := path_of_hasSidecar hsidecar
  have hat := changeAt_of_mem_snapshot hnamed hsidecar hentry hchange hentity
  rw [vv_slot_of_changeAt hsidecar hat]
  exact dominates_refl _

theorem Underway.appendLog (hunder : Underway contentHash entity peer cursor world)
    (hsidecar : entity.hasSidecar = true) {call : Bool} {now : DateTime}
    {compaction : Option DateTime}
    (hstep : step contentHash edits world (.appendLog call now compaction) = some next) :
    Underway contentHash entity peer cursor next := by
  obtain ⟨record, hwritten, htree, hcalls, hlog⟩ := appendLog_cases hstep
  have hrecord : LogRecord.Known (world.tree.slot entity).vv record :=
    hunder.stored call record (by rw [hwritten]; rfl)
  refine ⟨htree ▸ hunder.named, ?_, htree ▸ hunder.known, ?_, ?_, ?_, ?_⟩
  · rcases hlog with happended | ⟨ts, -, hsnapshot⟩
    · exact within_of_append hunder.within happended
    · exact hsnapshot ▸ within_of_next hunder.within _
  · rw [htree]
    rcases hlog with happended | ⟨ts, -, hsnapshot⟩
    · intro entry hentry
      rw [happended] at hentry
      rcases List.mem_append.mp hentry with hold | hnew
      · exact hunder.told entry hold
      · rw [List.mem_singleton.mp hnew]
        exact hrecord.tellsUpTo now
    · intro entry hentry
      rw [hsnapshot] at hentry
      exact tellsUpTo_snapshot hunder.named hsidecar hentry
  · rw [htree, hcalls]
    intro other later hlater
    rw [stored?_update] at hlater
    split at hlater
    · cases hlater
      exact hrecord
    · exact hunder.stored other later hlater
  · rw [htree, hcalls]
    intro other prepared hprepared
    rw [Function.update_apply] at hprepared
    split at hprepared
    · contradiction
    · refine ⟨(hunder.ready other prepared hprepared).1, fun second hsecond => ?_⟩
      rw [Function.update_apply] at hsecond
      split at hsecond
      · contradiction
      · exact (hunder.ready other prepared hprepared).2 second hsecond
  · obtain ⟨other, hnone⟩ := hunder.unwritten
    refine ⟨other, ?_⟩
    have hne : other ≠ call := by
      rintro rfl
      rw [hwritten] at hnone
      contradiction
    rw [hcalls, stored?_update, if_neg hne, hnone]

section Latest

variable {call : Bool} {before : FsTree} {mutation : Mutation} {made : TreeWrite}
  {change : Change}

/-- A snapshot that tells all of the entity tells the version written last. -/
theorem Latest.snapshot (hlatest : Latest contentHash entity peer cursor world call before
    mutation made change) (hsidecar : entity.hasSidecar = true)
    (hwhole : world.tree.ToldWhole entity) (ts : DateTime) :
    (∀ entry ∈ (world.tree.buildGlobalSnapshot ts).1,
      TellsUpTo entity (before.slot entity).vv entry ∨
        Retells contentHash entity made change.version.vv entry) ∧
      ∃ entry ∈ (world.tree.buildGlobalSnapshot ts).1,
        Retells contentHash entity made change.version.vv entry := by
  obtain ⟨path, told, hpath, rfl, htold, hvv, hrestores⟩ := hlatest.edited.snapshot
  obtain ⟨place, htree⟩ := hlatest.tree
  have hat : world.tree.changeAt path = some told := by
    rw [htree, before.changeAt_perform place hpath, if_pos rfl]
  have hretells : ∀ entry, logEntryToChange entry = some told →
      Retells contentHash path.entity made change.version.vv entry :=
    fun entry hentry => ⟨told, hentry, hrestores before place (htree ▸ hwhole),
      hvv.trans hlatest.edited.vv.symm⟩
  constructor
  · intro entry hentry
    by_cases htells : ∃ other, logEntryToChange entry = some other ∧ other.entity = path.entity
    · obtain ⟨other, hother, hentity⟩ := htells
      have hsame := changeAt_of_mem_snapshot hlatest.named hsidecar hentry hother hentity
      rw [hat, Option.some.injEq] at hsame
      exact .inr (hretells entry (hsame ▸ hother))
    · exact .inl fun other hother hentity => absurd ⟨other, hother, hentity⟩ htells
  · obtain ⟨entry, hfile, hentry⟩ := snapshotFile_of_changeAt ts hat
    exact ⟨entry, mem_buildGlobalSnapshot.mpr ⟨path, hfile⟩, hretells entry hentry⟩

theorem Latest.retells (hlatest : Latest contentHash entity peer cursor world call before
    mutation made change) (now : DateTime) :
    Retells contentHash entity made change.version.vv (mutation.record.at now) :=
  ⟨change, hlatest.edited.told now, hlatest.edited.restores, rfl⟩

theorem Latest.appendLog (hlatest : Latest contentHash entity peer cursor world call before
    mutation made change) (hsidecar : entity.hasSidecar = true) {caller : Bool} {now : DateTime}
    {compaction : Option DateTime}
    (hwhole : SnapshotsWhole entity world (.appendLog caller now compaction))
    (hstep : step contentHash edits world (.appendLog caller now compaction) = some next) :
    Latest contentHash entity peer cursor next call before mutation made change := by
  obtain ⟨record, hwritten, htree, hcalls, hlog⟩ := appendLog_cases hstep
  obtain ⟨second, hsecond, hknown⟩ := hlatest.other
  have hstored : ∀ other, (world.calls other).stored?.isSome = true := by
    intro other
    by_cases hother : other = call
    · subst hother
      rcases hlatest.mine with hmine | ⟨hmine, -⟩ <;> rw [hmine] <;> rfl
    · rw [Bool.eq_not.mpr hother, hsecond]
      rfl
  -- The call that appends is either the last writer or the one before it.
  have hentry : TellsUpTo entity (before.slot entity).vv (record.at now) ∨
      Retells contentHash entity made change.version.vv (record.at now) := by
    by_cases hcaller : caller = call
    · subst hcaller
      rcases hlatest.mine with hmine | ⟨hmine, -⟩
      · rw [hmine] at hwritten
        cases hwritten
        exact .inr (hlatest.retells now)
      · rw [hmine] at hwritten
        contradiction
    · rw [Bool.eq_not.mpr hcaller] at hwritten
      rw [hwritten] at hsecond
      cases hsecond
      exact .inl (hknown.tellsUpTo now)
  have hsnapshot : ∀ ts, compaction = some ts → _ := fun ts hts =>
    hlatest.snapshot hsidecar (by subst hts; exact hwhole (hstored _)) ts
  refine ⟨htree ▸ hlatest.named, ?_, hlatest.known, hlatest.edited, htree ▸ hlatest.tree,
    ?_, ?_, ?_⟩
  · rcases hlog with happended | ⟨ts, -, hnext⟩
    · exact within_of_append hlatest.within happended
    · exact hnext ▸ within_of_next hlatest.within _
  · have hretold : (caller = call ∨ ∃ entry ∈ world.log.readFrom cursor,
        Retells contentHash entity made change.version.vv entry) →
        ∃ entry ∈ next.log.readFrom cursor,
          Retells contentHash entity made change.version.vv entry := by
      intro hcause
      rcases hlog with happended | ⟨ts, hts, hnext⟩
      · rw [happended, LogCursor.readFrom_append hlatest.within]
        rcases hcause with hcaller | ⟨entry, hmem, hretells⟩
        · subst hcaller
          rcases hlatest.mine with hmine | ⟨hmine, -⟩
          · rw [hmine] at hwritten
            cases hwritten
            exact ⟨_, List.mem_append_right _ List.mem_cons_self, hlatest.retells now⟩
          · rw [hmine] at hwritten
            contradiction
        · exact ⟨entry, List.mem_append_left _ hmem, hretells⟩
      · rw [hnext, LogCursor.readFrom_next hlatest.within]
        exact (hsnapshot ts hts).2
    rw [hcalls, Function.update_apply]
    by_cases hcaller : call = caller
    · subst hcaller
      rcases hlatest.mine with hmine | ⟨hmine, -⟩
      · rw [hmine] at hwritten
        cases hwritten
        exact .inr ⟨if_pos rfl, hretold (.inl rfl)⟩
      · rw [hmine] at hwritten
        contradiction
    · rw [if_neg hcaller]
      rcases hlatest.mine with hmine | ⟨hmine, hretells⟩
      · exact .inl hmine
      · exact .inr ⟨hmine, hretold (.inr hretells)⟩
  · refine ⟨second, ?_, hknown⟩
    rw [hcalls, stored?_update]
    split
    · next hcaller =>
        rw [hcaller, hwritten] at hsecond
        exact hsecond
    · exact hsecond
  · rcases hlog with happended | ⟨ts, hts, hnext⟩
    · intro entry hmem
      rw [happended] at hmem
      rcases List.mem_append.mp hmem with hold | hnew
      · exact hlatest.entries entry hold
      · rw [List.mem_singleton.mp hnew]
        exact hentry
    · intro entry hmem
      rw [hnext] at hmem
      exact (hsnapshot ts hts).1 entry hmem

end Latest

/-- One step of two edits that stay apart. -/
theorem Apart.step (hapart : Apart contentHash entity peer cursor world)
    (hsidecar : entity.hasSidecar = true)
    (hedits : ∀ call, (edits call).isEdit = true ∧ (edits call).entity = entity)
    {action : EditAction} (hreads : ReadsApart world action)
    (hwhole : SnapshotsWhole entity world action)
    (hstep : EditWorld.step contentHash edits world action = some next) :
    Apart contentHash entity peer cursor next := by
  rcases hapart with hunder | ⟨call, before, mutation, made, change, hlatest⟩
  · cases action with
    | read caller ts =>
        exact .inl (hunder.read (hedits caller).1 (hedits caller).2 hreads hstep)
    | write caller place => exact hunder.write hstep
    | appendLog caller now compaction => exact .inl (hunder.appendLog hsidecar hstep)
  · have hstored : ∀ other, (world.calls other).stored?.isSome = true := by
      intro other
      by_cases hother : other = call
      · subst hother
        rcases hlatest.mine with hmine | ⟨hmine, -⟩ <;> rw [hmine] <;> rfl
      · obtain ⟨second, hsecond, -⟩ := hlatest.other
        rw [Bool.eq_not.mpr hother, hsecond]
        rfl
    cases action with
    | read caller ts =>
        simp only [EditWorld.step] at hstep
        split at hstep
        · next hcalled _ => simpa [hcalled, EditStage.stored?] using hstored caller
        · next hcalled _ => simpa [hcalled, EditStage.stored?] using hstored caller
        · contradiction
    | write caller place =>
        simp only [EditWorld.step] at hstep
        split at hstep
        · next hprepared => simpa [hprepared, EditStage.stored?] using hstored caller
        · contradiction
    | appendLog caller now compaction =>
        exact .inr ⟨call, before, mutation, made, change,
          hlatest.appendLog hsidecar hwhole hstep⟩

theorem Settled.apart {start : EditWorld} (hsettled : start.Settled entity)
    (hfollows : peer.FollowsTo cursor start entity) :
    Apart contentHash entity peer cursor start := by
  refine .inl ⟨hsettled.named, hfollows.cursor, hfollows.known, ?_, ?_, ?_, false, ?_⟩
  · exact fun entry hentry change hchange hentity =>
      hsettled.told entry hentry _ ⟨change, hchange, hentity, rfl⟩
  · intro call record hrecord
    rw [hsettled.called call] at hrecord
    contradiction
  · intro call mutation hprepared
    rw [hsettled.called call] at hprepared
    contradiction
  · rw [hsettled.called false]
    rfl

/-- The edits end with different vectors, and the peer with what is stored. -/
theorem Apart.agrees (hapart : Apart contentHash entity peer cursor world)
    (hsidecar : entity.hasSidecar = true) (hreadable : peer.slot entity ≠ .unreadable)
    {records : Bool → LogRecord} (hreturned : ∀ call, world.calls call = .returned (records call))
    (place : Uuid → Nat) :
    (records false).data.vv ≠ (records true).data.vv ∧
      world.tree.SameSeen (peer.replay contentHash place (world.log.readFrom cursor)) entity := by
  rcases hapart with hunder | ⟨call, before, mutation, made, change, hlatest⟩
  · obtain ⟨call, hnone⟩ := hunder.unwritten
    rw [hreturned call] at hnone
    contradiction
  · rcases hlatest.mine with hmine | ⟨hmine, hretold⟩
    · rw [hreturned call] at hmine
      contradiction
    · have hmutation : records call = mutation.record :=
        EditStage.returned.inj ((hreturned call).symm.trans hmine)
      obtain ⟨second, hsecond, hknown⟩ := hlatest.other
      have hother : records (!call) = second := by
        rw [hreturned (!call)] at hsecond
        exact Option.some.inj hsecond
      obtain ⟨place', htree⟩ := hlatest.tree
      constructor
      · have hne : (records (!call)).data.vv ≠ (records call).data.vv := by
          intro heq
          have hdom := hknown.1
          rw [← hother, heq, hmutation, hlatest.edited.next, not_dominates_increment] at hdom
          contradiction
        cases call with
        | false => exact hne.symm
        | true => exact hne
      · rw [htree]
        exact sameSeen_replay_of_retold hsidecar hlatest.edited.settles
          (hlatest.edited.vv.trans hlatest.edited.next) hreadable hlatest.known
          (fun entry hentry => hlatest.entries entry (world.log.readFrom_subset cursor hentry))
          hretold before place'

end Run

end EditWorld

theorem LocalWrite.hasSidecar_of_isEdit {write : LocalWrite} (hedit : write.isEdit = true) :
    write.entity.hasSidecar = true := by
  cases write <;> first | rfl | contradiction

/-- Two edits of one sidecar that read apart from each other's write store
versions with different vectors, and every peer that replays the journal ends
with what is stored. -/
theorem editRun_agrees {contentHash : List UInt8 → String} {edits : Bool → LocalWrite}
    {entity : Entity} (hedits : ∀ call, (edits call).isEdit = true ∧ (edits call).entity = entity)
    {start final : EditWorld} (hsettled : start.Settled entity) {actions : List EditAction}
    (hmeets : MeetsAll (EditWorld.step contentHash edits)
      (fun world action => world.ReadsApart action ∧ world.SnapshotsWhole entity action)
      start actions)
    (hrun : runAll (EditWorld.step contentHash edits) start actions = some final)
    {records : Bool → LogRecord} (hreturned : ∀ call, final.calls call = .returned (records call))
    {peer : FsTree} {cursor : LogCursor} (hfollows : peer.FollowsTo cursor start entity)
    (place : Uuid → Nat) :
    (records false).data.vv ≠ (records true).data.vv ∧
      final.tree.SameSeen (peer.replay contentHash place (final.log.readFrom cursor)) entity := by
  have hsidecar : entity.hasSidecar = true :=
    (hedits true).2 ▸ LocalWrite.hasSidecar_of_isEdit (hedits true).1
  have hfinal : EditWorld.Apart contentHash entity peer cursor final :=
    runAll_invariant_of_meetsAll _
      (fun world action next hinv hcondition hstep =>
        hinv.step hsidecar hedits hcondition.1 hcondition.2 hstep)
      (hsettled.apart hfollows) hmeets hrun
  exact hfinal.agrees hsidecar hfollows.readable hreturned place

namespace EditWorld

variable {contentHash : List UInt8 → String} {entity : Entity} {world next : EditWorld}
  {edits : Bool → LocalWrite}

/-- The call that is about to write has the vector after the stored one. -/
def Level (entity : Entity) (world : EditWorld) : Prop :=
  ∀ call mutation, world.calls call = .prepared mutation →
    mutation.record.data.vv = (world.tree.slot entity).vv.increment world.tree.deviceId ∧
      ∀ other, world.calls (!call) ≠ .prepared other

/-- Both calls have read, and the same. -/
def Shared (world : EditWorld) : Prop :=
  ∀ call, world.calls call ≠ .called ∧ ∀ one other, (world.calls call).record? = some one →
    (world.calls (!call)).record? = some other → one.data.vv = other.data.vv

theorem vv_of_edit {tree : FsTree} {write : LocalWrite} (hedit : write.isEdit = true)
    {ts : DateTime} {mutation : Mutation}
    (hwrite : tree.localWrite contentHash ts write = some (.ok mutation)) :
    mutation.record.data.vv = (tree.slot write.entity).vv.increment tree.deviceId := by
  obtain ⟨made, change, hedited⟩ := FsTree.edit_edited hedit hwrite
  exact hedited.next

theorem Level.step (hlevel : Level entity world) (hedits : ∀ call, (edits call).isEdit = true ∧
    (edits call).entity = entity) {action : EditAction} (hreads : ReadsApart world action)
    (hstep : EditWorld.step contentHash edits world action = some next) : Level entity next := by
  cases action with
  | read caller ts =>
      simp only [EditWorld.step] at hstep
      split at hstep
      · next mutation hcalled hwrite =>
          cases hstep
          intro call prepared hprepared
          simp only [Function.update_apply] at hprepared ⊢
          split at hprepared
          · next heq =>
              cases hprepared
              subst heq
              refine ⟨(hedits call).2 ▸ vv_of_edit (hedits call).1 hwrite, fun other => ?_⟩
              rw [if_neg (by simp)]
              exact EditStage.ne_prepared hreads other
          · next hne =>
              obtain rfl : call = !caller := Bool.eq_not.mpr hne
              exact absurd hprepared (EditStage.ne_prepared hreads prepared)
      · cases hstep
        intro call prepared hprepared
        simp only [Function.update_apply] at hprepared ⊢
        split at hprepared
        · contradiction
        · obtain ⟨hvv, hother⟩ := hlevel call prepared hprepared
          refine ⟨hvv, fun other => ?_⟩
          split
          · exact EditStage.noConfusion
          · exact hother other
      · contradiction
  | write caller place =>
      simp only [EditWorld.step] at hstep
      split at hstep
      · next mutation hmine =>
          cases hstep
          intro call prepared hprepared
          simp only [Function.update_apply] at hprepared
          split at hprepared
          · contradiction
          · next hne =>
              obtain rfl : call = !caller := Bool.eq_not.mpr hne
              exact absurd hprepared ((hlevel caller mutation hmine).2 prepared)
      · contradiction
  | appendLog caller now compaction =>
      obtain ⟨record, -, htree, hcalls, -⟩ := appendLog_cases hstep
      intro call prepared hprepared
      rw [hcalls, Function.update_apply] at hprepared
      rw [hcalls, htree]
      split at hprepared
      · contradiction
      · obtain ⟨hvv, hother⟩ := hlevel call prepared hprepared
        refine ⟨hvv, fun other => ?_⟩
        rw [Function.update_apply]
        split
        · exact EditStage.noConfusion
        · exact hother other

/-- A call that reads while the other is about to write reads what that one
read. -/
theorem Level.shared (hlevel : Level entity world) (hedits : ∀ call, (edits call).isEdit = true ∧
    (edits call).entity = entity) {action : EditAction} (hreads : ¬ReadsApart world action)
    (hstep : EditWorld.step contentHash edits world action = some next) : Shared next := by
  cases action with
  | read caller ts =>
      obtain ⟨first, hfirst⟩ : ∃ first, world.calls (!caller) = .prepared first := by
        cases hstage : world.calls (!caller) with
        | prepared first => exact ⟨first, rfl⟩
        | called | written | returned | refused => simp [ReadsApart, hstage,
            EditStage.isPrepared] at hreads
      have hvv := (hlevel _ first hfirst).1
      have hshared : ∀ stage : EditStage, stage ≠ .called →
          (∀ record, stage.record? = some record → record.data.vv = first.record.data.vv) →
          next.calls = Function.update world.calls caller stage → Shared next := by
        intro stage hcalled hrecord hcalls call
        rw [hcalls]
        by_cases heq : call = caller
        · subst heq
          rw [Function.update_self, Function.update_of_ne (by simp), hfirst]
          refine ⟨hcalled, fun one other hone hother => ?_⟩
          rw [hrecord one hone, ← Option.some.inj hother]
        · obtain rfl : call = !caller := Bool.eq_not.mpr heq
          rw [Bool.not_not, Function.update_self, Function.update_of_ne heq, hfirst]
          refine ⟨EditStage.noConfusion, fun one other hone hother => ?_⟩
          rw [hrecord other hother, ← Option.some.inj hone]
      simp only [EditWorld.step] at hstep
      split at hstep
      · next mutation hcalled hwrite =>
          cases hstep
          refine hshared (.prepared mutation) EditStage.noConfusion (fun record hrecord => ?_) rfl
          cases hrecord
          rw [vv_of_edit (hedits caller).1 hwrite, (hedits caller).2, hvv]
      · cases hstep
        exact hshared .refused EditStage.noConfusion (fun record hrecord => by contradiction) rfl
      · contradiction
  | write caller place | appendLog caller now compaction => exact absurd trivial hreads

/-- A call that has read keeps the vector to its end. -/
theorem Shared.step (hshared : Shared world) {action : EditAction}
    (hstep : EditWorld.step contentHash edits world action = some next) : Shared next := by
  have hkept : ∀ caller (stage : EditStage), stage ≠ .called →
      stage.record? = (world.calls caller).record? →
      next.calls = Function.update world.calls caller stage → Shared next := by
    intro caller stage hcalled hrecord hcalls call
    have hsame : ∀ other, (next.calls other).record? = (world.calls other).record? := by
      intro other
      rw [hcalls, Function.update_apply]
      split
      · next heq => rw [hrecord, heq]
      · rfl
    rw [hsame call, hsame (!call)]
    refine ⟨?_, (hshared call).2⟩
    rw [hcalls, Function.update_apply]
    split
    · exact hcalled
    · exact (hshared call).1
  cases action with
  | read caller ts =>
      simp only [EditWorld.step] at hstep
      split at hstep
      · next hcalled _ => exact absurd hcalled (hshared caller).1
      · next hcalled _ => exact absurd hcalled (hshared caller).1
      · contradiction
  | write caller place =>
      simp only [EditWorld.step] at hstep
      split at hstep
      · next mutation hprepared =>
          cases hstep
          exact hkept caller (.written mutation.record) EditStage.noConfusion
            (by rw [hprepared]; rfl) rfl
      · contradiction
  | appendLog caller now compaction =>
      obtain ⟨record, hwritten, -, hcalls, -⟩ := appendLog_cases hstep
      exact hkept caller (.returned record) EditStage.noConfusion (by rw [hwritten]; rfl) hcalls

end EditWorld

/-- Where a call reads while the other is about to write, the two versions have
one vector. -/
theorem editRun_overlapping_shares {contentHash : List UInt8 → String}
    {edits : Bool → LocalWrite} {entity : Entity}
    (hedits : ∀ call, (edits call).isEdit = true ∧ (edits call).entity = entity)
    {start final : EditWorld} (hlevel : start.Level entity) {actions : List EditAction}
    (hoverlap : ¬MeetsAll (EditWorld.step contentHash edits) EditWorld.ReadsApart start actions)
    (hrun : runAll (EditWorld.step contentHash edits) start actions = some final)
    {records : Bool → LogRecord}
    (hreturned : ∀ call, final.calls call = .returned (records call)) :
    (records false).data.vv = (records true).data.vv := by
  induction actions generalizing start with
  | nil => exact absurd trivial hoverlap
  | cons action rest ih =>
      obtain ⟨next, hnext, hrest⟩ := (runAll_cons_eq_some _).mp hrun
      by_cases hreads : start.ReadsApart action
      · refine ih (hlevel.step hedits hreads hnext) (fun hmeets => ?_) hrest
        refine hoverlap ⟨hreads, fun other hother => ?_⟩
        rw [hnext, Option.some.injEq] at hother
        exact hother ▸ hmeets
      · have hshared : final.Shared :=
          runAll_invariant _ (fun world action next hinv hstep => hinv.step hstep)
            (hlevel.shared hedits hreads hnext) hrest
        exact (hshared false).2 _ _ (by rw [hreturned false]; rfl) (by
          rw [Bool.not_false, hreturned true]
          rfl)

namespace ConcurrentEditsWitness

def start : EditWorld where
  tree := ⟨"A", [], [], [(7, .readable ⟨7, "", 1, 1, none, ∅, "", false⟩)], [], []⟩
  log := ⟨0, []⟩
  calls := fun _ => .called

theorem start_settled : start.Settled (.tag 7) where
  called := fun _ => rfl
  named := by
    intro path change hchange
    cases path with
    | tag id =>
        by_cases hid : id = 7
        · subst hid
          cases hchange
          rfl
        · have hnone : start.tree.tags.file? id = none := by
            simp [start, Directory.file?, Ne.symm hid]
          simp [FsTree.changeAt, hnone] at hchange
    | notebook id | noteTag noteId tagId | resource noteId id => contradiction
  told := fun entry hentry => absurd hentry List.not_mem_nil

def place : Uuid → Nat := fun _ => 0

/-- The tag is renamed twice. -/
def edits : Bool → LocalWrite
  | false => .updateTag ⟨7, "one", 1, 2, none, ∅, "", false⟩
  | true => .updateTag ⟨7, "two", 1, 3, none, ∅, "", false⟩

def apart : List EditAction :=
  [.read false 2, .write false place, .read true 3, .write true place,
    .appendLog true 4 none, .appendLog false 5 (some 6)]

def overlapping : List EditAction :=
  [.read false 2, .read true 3, .write false place, .write true place,
    .appendLog false 4 none, .appendLog true 5 none]

def peer : FsTree := ⟨"B", [], [], [], [], []⟩

theorem peer_follows : peer.FollowsTo .start start (.tag 7) :=
  ⟨Slot.noConfusion, rfl, .inr ⟨rfl, Nat.le_refl 0⟩⟩

theorem edits_isEdit (call : Bool) :
    (edits call).isEdit = true ∧ (edits call).entity = .tag 7 := by
  cases call <;> exact ⟨rfl, rfl⟩

/-- The second edit's entry is appended first, and the first's compacts. -/
theorem editRun_agrees_apart :
    ∃ (final : EditWorld) (records : Bool → LogRecord),
      runAll (EditWorld.step (fun _ => "") edits) start apart = some final ∧
      (∀ call, final.calls call = .returned (records call)) ∧
      (records false).data.vv ≠ (records true).data.vv ∧
      final.tree.SameSeen (peer.replay (fun _ => "") place (final.log.readFrom .start))
        (.tag 7) := by
  let vv : VersionVector := (∅ : VersionVector).increment "A"
  let records : Bool → LogRecord
    | false => ⟨.tag, 7, .update, .tag ⟨7, "one", 1, 2, none, vv, "A", false⟩⟩
    | true => ⟨.tag, 7, .update, .tag ⟨7, "two", 1, 3, none, vv.increment "A", "A", false⟩⟩
  have hreturned : ∀ call, ∃ final, runAll (EditWorld.step (fun _ => "") edits) start apart =
      some final ∧ final.calls call = .returned (records call) := by
    rintro (_ | _) <;> exact ⟨_, rfl, rfl⟩
  obtain ⟨final, hrun, hfirst⟩ := hreturned false
  obtain ⟨other, hother, hsecond⟩ := hreturned true
  rw [hrun, Option.some.injEq] at hother
  subst hother
  have hcalls : ∀ call, final.calls call = .returned (records call) := by
    rintro (_ | _)
    · exact hfirst
    · exact hsecond
  exact ⟨final, records, hrun, hcalls,
    editRun_agrees edits_isEdit start_settled (by decide) hrun hcalls peer_follows place⟩

/-- Both read the same vector, and so write the same next one. -/
theorem overlapping_edits_share_vector :
    ¬∀ (contentHash : List UInt8 → String) (edits : Bool → LocalWrite) (entity : Entity)
      (start final : EditWorld) (actions : List EditAction) (records : Bool → LogRecord)
      (peer : FsTree) (cursor : LogCursor) (place : Uuid → Nat),
      (∀ call, (edits call).isEdit = true ∧ (edits call).entity = entity) →
      start.Settled entity → peer.FollowsTo cursor start entity →
      runAll (EditWorld.step contentHash edits) start actions = some final →
      (∀ call, final.calls call = .returned (records call)) →
      (records false).data.vv ≠ (records true).data.vv ∧
        final.tree.SameSeen (peer.replay contentHash place (final.log.readFrom cursor))
          entity := by
  intro hagree
  let vv : VersionVector := (∅ : VersionVector).increment "A"
  let records : Bool → LogRecord
    | false => ⟨.tag, 7, .update, .tag ⟨7, "one", 1, 2, none, vv, "A", false⟩⟩
    | true => ⟨.tag, 7, .update, .tag ⟨7, "two", 1, 3, none, vv, "A", false⟩⟩
  have hresult := hagree (fun _ => "") edits (.tag 7) start _ overlapping records peer .start
    place edits_isEdit start_settled peer_follows rfl (by rintro (_ | _) <;> rfl)
  exact hresult.1 rfl

end ConcurrentEditsWitness

end Keeplin
