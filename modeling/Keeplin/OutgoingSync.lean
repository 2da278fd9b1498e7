/-
Sync cycles of the database that run while mutators commit.  A cycle takes its
start instant as the watermark of the next one, and collects the rows that are
strictly later than the last watermark; a row is sent in time unless it carries
the very instant that becomes a watermark.
-/
import Keeplin.LocalWrite
import Keeplin.LabelledRun

namespace Keeplin

/-- How far a cycle has come.  `before` is the length of the journal when the
cycle started. -/
inductive Cycle where
  | started (before : Nat) (since : DateTime)
  | stamped (before : Nat) (since syncTs : DateTime)
  | collected (before : Nat) (syncTs : DateTime) (batch : List Change)
  | sent (before : Nat) (syncTs : DateTime)
  | done (before : Nat)
  | failed
deriving DecidableEq

/-- The instant up to which the journal is taken as sent by a cycle under way:
what it collects from, and once it has collected, what it will store. -/
def Cycle.cutoff : Cycle → Option DateTime
  | started _ since => some since
  | stamped _ since _ => some since
  | collected _ syncTs _ => some syncTs
  | sent _ syncTs => some syncTs
  | done _ => none
  | failed => none

/-- A database, the clock, the instant a mutator has read for its journal row
while it holds the write lock, the cycles, and the batches that were sent. -/
structure OutgoingWorld where
  db : Db
  clock : DateTime
  writer : Option DateTime
  cycles : List Cycle
  sent : List (List Change)

inductive OutgoingStep where
  | tick (now : DateTime)
  | begin
  | commit (ts : DateTime) (write : LocalWrite)
  | rollback
  | start
  | stamp (cycle : Nat)
  | collect (cycle : Nat)
  | send (cycle : Nat)
  | apply (cycle : Nat) (change : Change)
  | finish (cycle : Nat)
  | fail (cycle : Nat)

namespace OutgoingWorld

def setCycle (world : OutgoingWorld) (position : Nat) (cycle : Cycle) : OutgoingWorld :=
  { world with cycles := world.cycles.set position cycle }

/-- Every instant that stands for "sent up to here". -/
def cutoffs (world : OutgoingWorld) : List DateTime :=
  world.db.getLastSyncTime :: world.cycles.filterMap Cycle.cutoff

/-- The change of the row is in a batch that was sent. -/
def Sent (world : OutgoingWorld) (row : EntityChange) : Prop :=
  ∃ batch ∈ world.sent, row.change ∈ batch

end OutgoingWorld

/-- A step of the database.  Only reading the clock needs no lock; a mutator
keeps the write lock from reading its instant to its commit. -/
def outgoingStep (world : OutgoingWorld) : OutgoingStep → Option OutgoingWorld
  | .tick now => if world.clock ≤ now then some { world with clock := now } else none
  | .begin =>
      if world.writer = none then some { world with writer := some world.clock } else none
  | .commit ts write =>
      match world.writer with
      | some changedAt =>
          match world.db.localWrite ts changedAt write with
          | .ok db => some { world with db, writer := none }
          | .error _ => none
      | none => none
  | .rollback => if world.writer = none then none else some { world with writer := none }
  | .start =>
      if world.writer = none then
        some
          { world with
            cycles := world.cycles ++
              [.started world.db.entityChanges.length world.db.getLastSyncTime] }
      else none
  | .stamp position =>
      match world.cycles[position]? with
      | some (.started before since) =>
          some (world.setCycle position (.stamped before since world.clock))
      | _ => none
  | .collect position =>
      match world.cycles[position]?, world.writer with
      | some (.stamped before since syncTs), none =>
          some (world.setCycle position
            (.collected before syncTs (world.db.getChangesSince since)))
      | _, _ => none
  | .send position =>
      match world.cycles[position]? with
      | some (.collected before syncTs batch) =>
          some
            { world.setCycle position (.sent before syncTs) with
              sent := world.sent ++ [batch] }
      | _ => none
  | .apply position change =>
      match world.cycles[position]?, world.writer with
      | some (.sent _ _), none => some { world with db := world.db.applyChange change }
      | _, _ => none
  | .finish position =>
      match world.cycles[position]?, world.writer with
      | some (.sent before syncTs), none =>
          some
            { world.setCycle position (.done before) with
              db := world.db.updateSyncTime syncTs }
      | _, _ => none
  | .fail position =>
      if position < world.cycles.length then some (world.setCycle position .failed) else none

/-- A row is not committed with an instant that is a cutoff. -/
def NoTie (world : OutgoingWorld) : OutgoingStep → Prop
  | .commit _ _ => ∀ changedAt ∈ world.writer, changedAt ∉ world.cutoffs
  | _ => True

/-- Nothing was journaled yet, no cycle is under way, and the stored watermark is
not in the future. -/
structure OutgoingWorld.Begun (world : OutgoingWorld) : Prop where
  journal : world.db.entityChanges = []
  cycles : world.cycles = []
  writer : world.writer = none
  lastSync : world.db.getLastSyncTime ≤ world.clock

/-- What is known of the rows from how far a cycle has come. -/
def OutgoingWorld.Tracks (world : OutgoingWorld) : Cycle → Prop
  | .started before since =>
      before ≤ world.db.entityChanges.length ∧
        ∀ row ∈ world.db.entityChanges, row.changedAt ≤ since → world.Sent row
  | .stamped before since syncTs =>
      before ≤ world.db.entityChanges.length ∧ syncTs ≤ world.clock ∧
        ∀ row ∈ world.db.entityChanges, row.changedAt ≤ since → world.Sent row
  | .collected before syncTs batch =>
      before ≤ world.db.entityChanges.length ∧
        ∀ row ∈ world.db.entityChanges,
          row ∈ world.db.entityChanges.take before ∨ row.changedAt ≤ syncTs →
            world.Sent row ∨ row.change ∈ batch
  | .sent before syncTs =>
      before ≤ world.db.entityChanges.length ∧
        ∀ row ∈ world.db.entityChanges,
          row ∈ world.db.entityChanges.take before ∨ row.changedAt ≤ syncTs →
            world.Sent row
  | .done before =>
      before ≤ world.db.entityChanges.length ∧
        ∀ row ∈ world.db.entityChanges.take before, world.Sent row
  | .failed => True

structure OutgoingWorld.Sound (world : OutgoingWorld) : Prop where
  tracked : ∀ cycle ∈ world.cycles, world.Tracks cycle
  watermark : ∀ row ∈ world.db.entityChanges,
    row.changedAt ≤ world.db.getLastSyncTime → world.Sent row
  cutoffs : ∀ cutoff ∈ world.cutoffs, cutoff ≤ world.clock
  writer : ∀ changedAt ∈ world.writer,
    changedAt ≤ world.clock ∧ ∀ cutoff ∈ world.cutoffs, cutoff ≤ changedAt

theorem Db.journal_applyChange (db : Db) (change : Change) :
    (db.applyChange change).entityChanges = db.entityChanges ∧
      (db.applyChange change).lastSync = db.lastSync := by
  cases change <;>
    simp only [applyChange, applyNote, applyNoteDelete, applyNotebook, applyNotebookDelete,
      applyTag, applyTagDelete, applyNoteTag, applyResource, applyResourceDelete] <;>
    split <;> simp [refreshNoteLinks, cascadeStampResources, upsertAssoc]

namespace OutgoingWorld

variable {world other : OutgoingWorld} {cycle : Cycle} {position : Nat}

theorem Begun.sound (hbegun : world.Begun) : world.Sound where
  tracked := by simp [hbegun.cycles]
  watermark := by simp [hbegun.journal]
  cutoffs := by simpa [cutoffs, hbegun.cycles] using hbegun.lastSync
  writer := by simp [hbegun.writer]

/-- What is known of a cycle outlasts time and sends. -/
theorem Tracks.mono (htracks : world.Tracks cycle)
    (hrows : other.db.entityChanges = world.db.entityChanges)
    (hclock : world.clock ≤ other.clock) (hsent : ∀ row, world.Sent row → other.Sent row) :
    other.Tracks cycle := by
  cases cycle with
  | started before since =>
      simp only [Tracks, hrows] at htracks ⊢
      exact ⟨htracks.1, fun row hrow hle => hsent row (htracks.2 row hrow hle)⟩
  | stamped before since syncTs =>
      simp only [Tracks, hrows] at htracks ⊢
      exact ⟨htracks.1, htracks.2.1.trans hclock,
        fun row hrow hle => hsent row (htracks.2.2 row hrow hle)⟩
  | collected before syncTs batch =>
      simp only [Tracks, hrows] at htracks ⊢
      exact ⟨htracks.1, fun row hrow hold => (htracks.2 row hrow hold).imp (hsent row) id⟩
  | sent before syncTs =>
      simp only [Tracks, hrows] at htracks ⊢
      exact ⟨htracks.1, fun row hrow hold => hsent row (htracks.2 row hrow hold)⟩
  | done before =>
      simp only [Tracks, hrows] at htracks ⊢
      exact ⟨htracks.1, fun row hrow => hsent row (htracks.2 row hrow)⟩
  | failed => trivial

/-- A step that leaves the journal, the watermark and the cycles alone. -/
theorem Sound.mono (hsound : world.Sound)
    (hrows : other.db.entityChanges = world.db.entityChanges)
    (hlast : other.db.lastSync = world.db.lastSync) (hclock : world.clock ≤ other.clock)
    (hsent : ∀ row, world.Sent row → other.Sent row) (hcycles : other.cycles = world.cycles)
    (hwriter : ∀ changedAt ∈ other.writer, changedAt ∈ world.writer ∨ changedAt = other.clock) :
    other.Sound := by
  have hcutoffs : other.cutoffs = world.cutoffs := by
    simp only [OutgoingWorld.cutoffs, Db.getLastSyncTime, hlast, hcycles]
  constructor
  · intro cycle hcycle
    exact (hsound.tracked cycle (hcycles ▸ hcycle)).mono hrows hclock hsent
  · intro row hrow hle
    rw [hrows] at hrow
    rw [Db.getLastSyncTime, hlast] at hle
    exact hsent row (hsound.watermark row hrow hle)
  · intro cutoff hcutoff
    rw [hcutoffs] at hcutoff
    exact (hsound.cutoffs cutoff hcutoff).trans hclock
  · intro changedAt hchanged
    rw [hcutoffs]
    rcases hwriter changedAt hchanged with hold | rfl
    · exact ⟨(hsound.writer changedAt hold).1.trans hclock, (hsound.writer changedAt hold).2⟩
    · exact ⟨le_refl _, fun cutoff hcutoff => (hsound.cutoffs cutoff hcutoff).trans hclock⟩

theorem mem_cutoffs_of_cycle {cutoff : DateTime} (hcycle : cycle ∈ world.cycles)
    (hcutoff : cycle.cutoff = some cutoff) : cutoff ∈ world.cutoffs :=
  List.mem_cons_of_mem _ (List.mem_filterMap.mpr ⟨cycle, hcycle, hcutoff⟩)

/-- A cycle moves on, with a cutoff that there was before or that is new while no
mutator holds the lock. -/
theorem Sound.setCycle (hsound : world.Sound) (htracks : world.Tracks cycle)
    (hcutoff : ∀ cutoff, cycle.cutoff = some cutoff →
      cutoff ∈ world.cutoffs ∨ (cutoff ≤ world.clock ∧ world.writer = none)) :
    (world.setCycle position cycle).Sound := by
  have hcutoffs : ∀ cutoff ∈ (world.setCycle position cycle).cutoffs,
      cutoff ∈ world.cutoffs ∨ (cutoff ≤ world.clock ∧ world.writer = none) := by
    intro cutoff hmem
    rcases List.mem_cons.mp hmem with rfl | hcycles
    · exact Or.inl List.mem_cons_self
    · obtain ⟨found, hfound, hsome⟩ := List.mem_filterMap.mp hcycles
      rcases List.mem_or_eq_of_mem_set hfound with hold | rfl
      · exact Or.inl (mem_cutoffs_of_cycle hold hsome)
      · exact hcutoff cutoff hsome
  constructor
  · intro found hfound
    have hold : world.Tracks found := by
      rcases List.mem_or_eq_of_mem_set hfound with hold | rfl
      · exact hsound.tracked found hold
      · exact htracks
    exact hold.mono rfl (le_refl _) fun _ hsent => hsent
  · exact hsound.watermark
  · intro cutoff hmem
    rcases hcutoffs cutoff hmem with hold | ⟨hle, -⟩
    · exact hsound.cutoffs cutoff hold
    · exact hle
  · intro changedAt hchanged
    refine ⟨(hsound.writer changedAt hchanged).1, fun cutoff hmem => ?_⟩
    rcases hcutoffs cutoff hmem with hold | ⟨-, hnone⟩
    · exact (hsound.writer changedAt hchanged).2 cutoff hold
    · have hwriter : changedAt ∈ world.writer := hchanged
      rw [hnone] at hwriter
      contradiction

/-- A row committed later than every cutoff is one every later collection finds. -/
theorem Sound.commit (hsound : world.Sound) {changedAt : DateTime} {row : EntityChange}
    {db : Db} (hwriter : changedAt ∈ world.writer) (hnotie : changedAt ∉ world.cutoffs)
    (hrow : row.changedAt = changedAt)
    (hrows : db.entityChanges = world.db.entityChanges ++ [row])
    (hlast : db.lastSync = world.db.lastSync) :
    ({ world with db, writer := none } : OutgoingWorld).Sound := by
  have hlater : ∀ cutoff ∈ world.cutoffs, ¬ row.changedAt ≤ cutoff := by
    intro cutoff hcutoff hle
    have hge := (hsound.writer changedAt hwriter).2 cutoff hcutoff
    rw [hrow] at hle
    exact hnotie (le_antisymm hle hge ▸ hcutoff)
  have hcutoffs : ({ world with db, writer := none } : OutgoingWorld).cutoffs =
      world.cutoffs := by
    simp only [OutgoingWorld.cutoffs, Db.getLastSyncTime, hlast]
  have hcases : ∀ found ∈ db.entityChanges, found ∈ world.db.entityChanges ∨ found = row := by
    intro found hfound
    rw [hrows] at hfound
    exact (List.mem_append.mp hfound).imp id List.mem_singleton.mp
  have hgrown : ∀ before, before ≤ world.db.entityChanges.length →
      before ≤ db.entityChanges.length ∧
        db.entityChanges.take before = world.db.entityChanges.take before := by
    intro before hbefore
    rw [hrows, List.take_append_of_le_length hbefore, List.length_append]
    exact ⟨Nat.le_add_right_of_le hbefore, rfl⟩
  constructor
  · intro cycle hcycle
    have hold := hsound.tracked cycle hcycle
    have hcut : ∀ cutoff, cycle.cutoff = some cutoff → ¬ row.changedAt ≤ cutoff :=
      fun cutoff hsome => hlater cutoff (mem_cutoffs_of_cycle hcycle hsome)
    have hbatch : ∀ {before : Nat} {syncTs : DateTime} {told : EntityChange → Prop},
        before ≤ world.db.entityChanges.length → ¬ row.changedAt ≤ syncTs →
        (∀ found ∈ world.db.entityChanges,
          found ∈ world.db.entityChanges.take before ∨ found.changedAt ≤ syncTs → told found) →
        ∀ found ∈ db.entityChanges,
          found ∈ db.entityChanges.take before ∨ found.changedAt ≤ syncTs → told found := by
      intro before syncTs told hbefore hnew htold found hfound hin
      rw [(hgrown before hbefore).2] at hin
      rcases hcases found hfound with hmem | rfl
      · exact htold found hmem hin
      · rcases hin with htake | hle
        · exact htold found (List.mem_of_mem_take htake) (Or.inl htake)
        · exact absurd hle hnew
    cases cycle with
    | started before since =>
        refine ⟨(hgrown before hold.1).1, fun found hfound hle => ?_⟩
        rcases hcases found hfound with hmem | rfl
        · exact hold.2 found hmem hle
        · exact absurd hle (hcut since rfl)
    | stamped before since syncTs =>
        refine ⟨(hgrown before hold.1).1, hold.2.1, fun found hfound hle => ?_⟩
        rcases hcases found hfound with hmem | rfl
        · exact hold.2.2 found hmem hle
        · exact absurd hle (hcut since rfl)
    | collected before syncTs batch =>
        exact ⟨(hgrown before hold.1).1, hbatch hold.1 (hcut syncTs rfl) hold.2⟩
    | sent before syncTs =>
        exact ⟨(hgrown before hold.1).1, hbatch hold.1 (hcut syncTs rfl) hold.2⟩
    | done before =>
        refine ⟨(hgrown before hold.1).1, fun found hfound => ?_⟩
        rw [(hgrown before hold.1).2] at hfound
        exact hold.2 found hfound
    | failed => trivial
  · intro found hfound hle
    have hsame : db.getLastSyncTime = world.db.getLastSyncTime := by
      simp only [Db.getLastSyncTime, hlast]
    rw [show ({ world with db, writer := none } : OutgoingWorld).db.getLastSyncTime =
      world.db.getLastSyncTime from hsame] at hle
    rcases hcases found hfound with hmem | rfl
    · exact hsound.watermark found hmem hle
    · exact absurd hle (hlater _ List.mem_cons_self)
  · intro cutoff hcutoff
    rw [hcutoffs] at hcutoff
    exact hsound.cutoffs cutoff hcutoff
  · intro changedAt hchanged
    contradiction

theorem Sound.start (hsound : world.Sound) :
    ({ world with
        cycles := world.cycles ++
          [.started world.db.entityChanges.length world.db.getLastSyncTime] } :
      OutgoingWorld).Sound := by
  have hcutoffs : ∀ cutoff ∈ ({ world with
      cycles := world.cycles ++
        [.started world.db.entityChanges.length world.db.getLastSyncTime] } :
      OutgoingWorld).cutoffs, cutoff ∈ world.cutoffs := by
    intro cutoff hcutoff
    rcases List.mem_cons.mp hcutoff with rfl | hcycles
    · exact List.mem_cons_self
    · rw [List.filterMap_append] at hcycles
      rcases List.mem_append.mp hcycles with hold | hnew
      · exact List.mem_cons_of_mem _ hold
      · exact List.mem_singleton.mp hnew ▸ List.mem_cons_self
  constructor
  · intro cycle hcycle
    rcases List.mem_append.mp hcycle with hold | hnew
    · exact (hsound.tracked cycle hold).mono rfl (le_refl _) fun _ hsent => hsent
    · rw [List.mem_singleton.mp hnew]
      exact ⟨le_refl _, hsound.watermark⟩
  · exact hsound.watermark
  · exact fun cutoff hcutoff => hsound.cutoffs cutoff (hcutoffs cutoff hcutoff)
  · exact fun changedAt hchanged => ⟨(hsound.writer changedAt hchanged).1,
      fun cutoff hcutoff => (hsound.writer changedAt hchanged).2 cutoff (hcutoffs cutoff hcutoff)⟩

/-- What a cycle collects after the cutoff it started from, with what was sent
before, is every row. -/
theorem Sound.collect (hsound : world.Sound) {before : Nat} {since syncTs : DateTime}
    (hcycle : .stamped before since syncTs ∈ world.cycles) (hwriter : world.writer = none) :
    (world.setCycle position
      (.collected before syncTs (world.db.getChangesSince since))).Sound := by
  obtain ⟨hbefore, hclock, hsent⟩ := hsound.tracked _ hcycle
  apply hsound.setCycle
  · refine ⟨hbefore, fun row hrow _ => ?_⟩
    by_cases hle : row.changedAt ≤ since
    · exact Or.inl (hsent row hrow hle)
    · refine Or.inr (List.mem_map_of_mem (List.mem_filter.mpr ⟨hrow, ?_⟩))
      exact decide_eq_true (not_le.mp hle)
  · intro cutoff hcutoff
    exact Or.inr ⟨Option.some.inj hcutoff ▸ hclock, hwriter⟩

theorem Sound.send (hsound : world.Sound) {before : Nat} {syncTs : DateTime}
    {batch : List Change} (hcycle : .collected before syncTs batch ∈ world.cycles) :
    ({ world.setCycle position (.sent before syncTs) with
        sent := world.sent ++ [batch] } : OutgoingWorld).Sound := by
  have hkeep : ∀ row, world.Sent row →
      ({ world with sent := world.sent ++ [batch] } : OutgoingWorld).Sent row := by
    rintro row ⟨found, hfound, hrow⟩
    exact ⟨found, List.mem_append_left _ hfound, hrow⟩
  have hextended : ({ world with sent := world.sent ++ [batch] } : OutgoingWorld).Sound :=
    hsound.mono rfl rfl (le_refl _) hkeep rfl fun _ hchanged => Or.inl hchanged
  obtain ⟨hbefore, hrows⟩ := hsound.tracked _ hcycle
  refine hextended.setCycle ⟨hbefore, fun row hrow hold => ?_⟩
    fun cutoff hcutoff => Or.inl ?_
  · rcases hrows row hrow hold with hsent | hbatch
    · exact hkeep row hsent
    · exact ⟨batch, by simp, hbatch⟩
  · exact Option.some.inj hcutoff ▸ mem_cutoffs_of_cycle hcycle rfl

/-- A cycle that ends well stores a watermark up to which everything was sent. -/
theorem Sound.finish (hsound : world.Sound) {before : Nat} {syncTs : DateTime}
    (hcycle : .sent before syncTs ∈ world.cycles) :
    ({ world.setCycle position (.done before) with
        db := world.db.updateSyncTime syncTs } : OutgoingWorld).Sound := by
  obtain ⟨hbefore, hrows⟩ := hsound.tracked _ hcycle
  have hmember : syncTs ∈ world.cutoffs := mem_cutoffs_of_cycle hcycle rfl
  have hdone : (world.setCycle position (.done before)).Sound :=
    hsound.setCycle
      ⟨hbefore, fun row hrow => hrows row (List.mem_of_mem_take hrow) (Or.inl hrow)⟩
      fun cutoff hcutoff => by contradiction
  have hcutoffs : ∀ cutoff ∈ ({ world.setCycle position (.done before) with
      db := world.db.updateSyncTime syncTs } : OutgoingWorld).cutoffs,
      cutoff = syncTs ∨ cutoff ∈ (world.setCycle position (.done before)).cutoffs := by
    intro cutoff hcutoff
    exact (List.mem_cons.mp hcutoff).imp id fun hmem => List.mem_cons_of_mem _ hmem
  constructor
  · exact fun found hfound => (hdone.tracked found hfound).mono rfl (le_refl _)
      fun _ hsent => hsent
  · exact fun row hrow hle => hrows row hrow (Or.inr hle)
  · intro cutoff hcutoff
    rcases hcutoffs cutoff hcutoff with rfl | hold
    · exact hsound.cutoffs _ hmember
    · exact hdone.cutoffs cutoff hold
  · intro changedAt hchanged
    refine ⟨(hsound.writer changedAt hchanged).1, fun cutoff hcutoff => ?_⟩
    rcases hcutoffs cutoff hcutoff with rfl | hold
    · exact (hsound.writer changedAt hchanged).2 _ hmember
    · exact (hdone.writer changedAt hchanged).2 cutoff hold

end OutgoingWorld

theorem outgoingStep_sound {world next : OutgoingWorld} {step : OutgoingStep}
    (hsound : world.Sound) (hnotie : NoTie world step)
    (hstep : outgoingStep world step = some next) : next.Sound := by
  cases step with
  | tick now =>
      simp only [outgoingStep] at hstep
      split at hstep
      · next hclock =>
          cases hstep
          exact hsound.mono rfl rfl hclock (fun _ hsent => hsent) rfl
            fun _ hchanged => Or.inl hchanged
      · contradiction
  | begin =>
      simp only [outgoingStep] at hstep
      split at hstep
      · cases hstep
        exact hsound.mono rfl rfl (le_refl _) (fun _ hsent => hsent) rfl
          fun _ hchanged => Or.inr (Option.some.inj hchanged).symm
      · contradiction
  | commit ts write =>
      simp only [outgoingStep] at hstep
      split at hstep
      · next changedAt hwriter =>
          split at hstep
          · next db hwrite =>
              cases hstep
              obtain ⟨change, hwrote⟩ := Db.localWrite_wrote hwrite
              exact hsound.commit hwriter (hnotie changedAt hwriter) rfl hwrote.journaled
                hwrote.lastSync
          · contradiction
      · contradiction
  | rollback =>
      simp only [outgoingStep] at hstep
      split at hstep
      · contradiction
      · cases hstep
        exact hsound.mono rfl rfl (le_refl _) (fun _ hsent => hsent) rfl
          fun _ hchanged => by contradiction
  | start =>
      simp only [outgoingStep] at hstep
      split at hstep
      · next hwriter =>
          cases hstep
          exact hsound.start
      · contradiction
  | stamp position =>
      simp only [outgoingStep] at hstep
      split at hstep
      · next before since hcycle =>
          cases hstep
          have hmem := List.mem_of_getElem? hcycle
          obtain ⟨hbefore, hrows⟩ := hsound.tracked _ hmem
          exact hsound.setCycle ⟨hbefore, le_refl _, hrows⟩ fun cutoff hcutoff =>
            Or.inl (OutgoingWorld.mem_cutoffs_of_cycle hmem hcutoff)
      · contradiction
  | collect position =>
      simp only [outgoingStep] at hstep
      split at hstep
      · next before since syncTs hcycle hwriter =>
          cases hstep
          exact hsound.collect (List.mem_of_getElem? hcycle) hwriter
      · contradiction
  | send position =>
      simp only [outgoingStep] at hstep
      split at hstep
      · next before syncTs batch hcycle =>
          cases hstep
          exact hsound.send (List.mem_of_getElem? hcycle)
      · contradiction
  | apply position change =>
      simp only [outgoingStep] at hstep
      split at hstep
      · cases hstep
        obtain ⟨hrows, hlast⟩ := world.db.journal_applyChange change
        exact hsound.mono hrows hlast (le_refl _) (fun _ hsent => hsent) rfl
          fun _ hchanged => Or.inl hchanged
      · contradiction
  | finish position =>
      simp only [outgoingStep] at hstep
      split at hstep
      · next before syncTs hcycle hwriter =>
          cases hstep
          exact hsound.finish (List.mem_of_getElem? hcycle)
      · contradiction
  | fail position =>
      simp only [outgoingStep] at hstep
      split at hstep
      · cases hstep
        exact hsound.setCycle trivial fun cutoff hcutoff => by contradiction
      · contradiction

/-- In every run in which no row is committed at the very instant of a cutoff, a
cycle that has ended well leaves no row unsent that was journaled before it
started. -/
theorem outgoingRun_sends_all {start world : OutgoingWorld} {steps : List OutgoingStep}
    (hbegun : start.Begun) (hnotie : MeetsAll outgoingStep NoTie start steps)
    (hrun : runAll outgoingStep start steps = some world) :
    ∀ before, .done before ∈ world.cycles →
      ∀ row ∈ world.db.entityChanges.take before, ∃ batch ∈ world.sent, row.change ∈ batch := by
  intro before hdone
  have hsound := runAll_invariant_of_meetsAll outgoingStep
    (fun _ _ _ hsound hnotie hstep => outgoingStep_sound hsound hnotie hstep)
    hbegun.sound hnotie hrun
  exact (hsound.tracked _ hdone).2

instance (world : OutgoingWorld) : ∀ step, Decidable (NoTie world step)
  | .commit _ _ => inferInstanceAs
      (Decidable (∀ changedAt ∈ world.writer, changedAt ∉ world.cutoffs))
  | .tick _ => inferInstanceAs (Decidable True)
  | .begin => inferInstanceAs (Decidable True)
  | .rollback => inferInstanceAs (Decidable True)
  | .start => inferInstanceAs (Decidable True)
  | .stamp _ => inferInstanceAs (Decidable True)
  | .collect _ => inferInstanceAs (Decidable True)
  | .send _ => inferInstanceAs (Decidable True)
  | .apply _ _ => inferInstanceAs (Decidable True)
  | .finish _ => inferInstanceAs (Decidable True)
  | .fail _ => inferInstanceAs (Decidable True)

namespace OutgoingSyncWitness

def start : OutgoingWorld where
  db := ⟨"A", ∅, ∅, ∅, ∅, ∅, [], [], none⟩
  clock := 1
  writer := none
  cycles := []
  sent := []

theorem start_begun : start.Begun :=
  ⟨rfl, rfl, rfl, by decide⟩

def notebook : Notebook := ⟨7, "", 1, 1, none, none, ∅, ""⟩

/-- A cycle whose collection comes before the mutator `between` the two. -/
def around (between : List OutgoingStep) : List OutgoingStep :=
  [.start, .stamp 0, .collect 0] ++ between ++
    [.send 0, .finish 0, .start, .stamp 1, .collect 1, .send 1, .finish 1]

theorem outgoingRun_sends_all_later :
    ∃ world, runAll outgoingStep start
        (around [.tick 2, .begin, .commit 2 (.createNotebook notebook)]) = some world ∧
      ∀ before, .done before ∈ world.cycles →
        ∀ row ∈ world.db.entityChanges.take before,
          ∃ batch ∈ world.sent, row.change ∈ batch := by
  have hrun : (runAll outgoingStep start
      (around [.tick 2, .begin, .commit 2 (.createNotebook notebook)])).isSome = true := by
    decide
  obtain ⟨world, hworld⟩ := Option.isSome_iff_exists.mp hrun
  exact ⟨world, hworld, outgoingRun_sends_all start_begun (by decide) hworld⟩

/-- A row committed within the instant the cycle started at is in no batch, though
a later cycle has ended well. -/
theorem outgoingRun_drops_tie :
    ∃ world, runAll outgoingStep start
        (around [.begin, .commit 1 (.createNotebook notebook)]) = some world ∧
      ∃ before, .done before ∈ world.cycles ∧
        ∃ row ∈ world.db.entityChanges.take before,
          ∀ batch ∈ world.sent, row.change ∉ batch := by
  have hrun : (runAll outgoingStep start
      (around [.begin, .commit 1 (.createNotebook notebook)])).any (fun world =>
        .done 1 ∈ world.cycles ∧ ∃ row ∈ world.db.entityChanges.take 1,
          ∀ batch ∈ world.sent, row.change ∉ batch) = true := by
    decide
  obtain ⟨world, hworld, hdropped⟩ := (Option.any_eq_true _ _).mp hrun
  exact ⟨world, hworld, 1, of_decide_eq_true hdropped⟩

end OutgoingSyncWitness

end Keeplin
