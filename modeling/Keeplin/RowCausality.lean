/-
One row or sidecar on any number of devices.  The slot keeps one vector, so
when two concurrent versions meet on a device the vector of one of them is
dropped.  As long as no device writes while something it has dropped is missing
from its slot, comparing two vectors says who had seen what.
-/
import Keeplin.LocalWrite
import Keeplin.VectorClock
import Keeplin.LabelledRun
import Mathlib.Logic.Function.Basic

namespace Keeplin

open VersionVector EventClock

/-- The store of one device. -/
inductive Replica where
  | rows (db : Db)
  | files (tree : FsTree)

namespace Replica

def deviceId : Replica → String
  | .rows db => db.deviceId
  | .files tree => tree.deviceId

def slot : Replica → Entity → Slot
  | .rows db => db.slot
  | .files tree => tree.slot

def apply (contentHash : List UInt8 → String) (place : Uuid → Nat) (change : Change) :
    Replica → Replica
  | .rows db => .rows (db.applyChange change)
  | .files tree => .files (tree.afterChange contentHash place change)

/-- A local write, and the change it tells the peers: the journaled row, or the
appended journal entry as a peer reads it. -/
def write (contentHash : List UInt8 → String) (place : Uuid → Nat)
    (ts changedAt : DateTime) (write : LocalWrite) : Replica → Option (Replica × Change)
  | .rows db =>
      match db.localWrite ts changedAt write with
      | .error _ => none
      | .ok after =>
          after.entityChanges.getLast?.map fun row => (.rows after, row.change)
  | .files tree =>
      match tree.localWrite contentHash ts write with
      | some (.ok mutation) =>
          (logEntryToChange (mutation.record.at changedAt)).map fun change =>
            (.files (tree.performAll place mutation.writes), change)
      | _ => none

/-- The filesystem store keeps the entity in one sidecar. -/
def Keeps (entity : Entity) : Replica → Prop
  | .rows _ => True
  | .files _ => entity.hasSidecar = true

end Replica

section Replica

variable {contentHash : List UInt8 → String} {place : Uuid → Nat}

theorem Db.deviceId_applyChange (db : Db) (change : Change) :
    (db.applyChange change).deviceId = db.deviceId := by
  cases change <;>
    simp only [applyChange, applyNote, applyNoteDelete, applyNotebook, applyNotebookDelete,
      applyTag, applyTagDelete, applyNoteTag, applyResource, applyResourceDelete] <;>
    split <;> simp [refreshNoteLinks, cascadeStampResources, upsertAssoc]

theorem Replica.deviceId_apply (replica : Replica) (change : Change) :
    (replica.apply contentHash place change).deviceId = replica.deviceId := by
  cases replica with
  | rows db => exact db.deviceId_applyChange change
  | files tree => exact tree.deviceId_performAll place _

theorem Replica.keeps_apply {replica : Replica} {entity : Entity} (change : Change)
    (hkeeps : replica.Keeps entity) :
    (replica.apply contentHash place change).Keeps entity := by
  cases replica with
  | rows db => exact hkeeps
  | files tree => exact hkeeps

theorem Replica.slot_apply {replica : Replica} {entity : Entity} {change : Change}
    (hkeeps : replica.Keeps entity) (hentity : change.entity = entity) :
    (replica.apply contentHash place change).slot entity =
      slotRegister.deliver (replica.slot entity) change := by
  subst hentity
  cases replica with
  | rows db => exact db.slot_applyChange change
  | files tree => exact tree.slot_afterChange contentHash place change hkeeps

/-- A write of the entity stores and tells one local version. -/
theorem Replica.write_spec {replica after : Replica} {ts changedAt : DateTime}
    {write : LocalWrite} {change : Change} (hkeeps : replica.Keeps write.entity)
    (hwrite : replica.write contentHash place ts changedAt write = some (after, change)) :
    after.deviceId = replica.deviceId ∧ after.Keeps write.entity ∧
      LocalVersion write.entity (replica.slot write.entity) (after.slot write.entity)
        replica.deviceId change := by
  cases replica with
  | rows db =>
      simp only [Replica.write] at hwrite
      split at hwrite
      · contradiction
      · next written hlocal =>
          obtain ⟨told, hwrote⟩ := Db.localWrite_wrote hlocal
          rw [hwrote.journaled, List.getLast?_concat] at hwrite
          obtain ⟨rfl, rfl⟩ := Prod.mk.inj (Option.some.inj hwrite)
          exact ⟨hwrote.deviceId, trivial, hwrote.version⟩
  | files tree =>
      simp only [Replica.write] at hwrite
      split at hwrite
      · next mutation hlocal =>
          obtain ⟨told, hwrote⟩ := FsTree.localWrite_wrote place changedAt hkeeps hlocal
          rw [hwrote.told] at hwrite
          obtain ⟨rfl, rfl⟩ := Prod.mk.inj (Option.some.inj hwrite)
          exact ⟨hwrote.deviceId, hkeeps, hwrote.version⟩
      · contradiction

end Replica

/-- The vector that the resolution of a version against a slot drops: that of
the losing one of two concurrent versions. -/
def droppedVv (incoming : Version) : Slot → List VersionVector
  | .stored current =>
      if dominates current.vv incoming.vv || dominates incoming.vv current.vv then []
      else if incoming.beats (.stored current) then [current.vv] else [incoming.vv]
  | _ => []

/-- The devices' stores, every change that was sent, and what each device has
applied and dropped.  The history has each version a device wrote with all that
device had applied by then. -/
structure RowWorld where
  replicas : String → Replica
  clock : DateTime
  sent : List Change
  applied : String → List Version
  dropped : String → List VersionVector
  history : History Version

inductive RowStep where
  | write (device : String) (place : Uuid → Nat) (ts changedAt : DateTime)
      (write : LocalWrite)
  | deliver (device : String) (place : Uuid → Nat) (change : Change)

section World

variable (contentHash : List UInt8 → String) (entity : Entity)

/-- A step of the world.  A write carries an instant of the shared clock, which
only moves forward; a change that was sent reaches any device at any time. -/
def rowStep (world : RowWorld) : RowStep → Option RowWorld
  | .write device place ts changedAt write =>
      if write.entity = entity ∧ world.clock < ts then
        match (world.replicas device).write contentHash place ts changedAt write with
        | some (replica, change) =>
            if change.version.timestamp = ts then
              some
                { replicas := Function.update world.replicas device replica
                  clock := ts
                  sent := world.sent ++ [change]
                  applied := Function.update world.applied device
                    (world.applied device ++ [change.version])
                  dropped := world.dropped
                  history := world.history ++ [(change.version, world.applied device)] }
            else none
        | none => none
      else none
  | .deliver device place change =>
      if change ∈ world.sent then
        let replica := world.replicas device
        some
          { world with
            replicas := Function.update world.replicas device
              (replica.apply contentHash place change)
            applied := Function.update world.applied device
              (world.applied device ++ [change.version])
            dropped := Function.update world.dropped device
              (world.dropped device ++ droppedVv change.version (replica.slot entity)) }
      else none

/-- A device writes only while its slot covers every vector it has dropped. -/
def CoversDropped (world : RowWorld) : RowStep → Prop
  | .write device _ _ _ _ =>
      ∀ vv ∈ world.dropped device,
        dominates ((world.replicas device).slot entity).vv vv = true
  | .deliver _ _ _ => True

/-- Nobody has the entity yet. -/
structure RowWorld.Fresh (world : RowWorld) : Prop where
  names : ∀ device, (world.replicas device).deviceId = device
  keeps : ∀ device, (world.replicas device).Keeps entity
  missing : ∀ device, (world.replicas device).slot entity = .missing
  sent : world.sent = []
  applied : ∀ device, world.applied device = []
  dropped : ∀ device, world.dropped device = []
  history : world.history = []

end World

/-- Versions as events: the device that wrote one and what its vector counts. -/
def versionClock : EventClock Version String where
  author := Version.writer
  count := fun version device => count version.vv device

theorem dominates_iff_versionClock {later earlier : Version} :
    dominates later.vv earlier.vv = true ↔
      ∀ device, versionClock.count earlier device ≤ versionClock.count later device :=
  dominates_iff

/-- Everything a device has applied is counted by its slot or was dropped. -/
def Accounted (slot : Slot) (dropped : List VersionVector) (applied : List Version) :
    Prop :=
  ∀ version ∈ applied, dominates slot.vv version.vv = true ∨
    ∃ vv ∈ dropped, dominates vv version.vv = true

structure RowWorld.Sound (entity : Entity) (world : RowWorld) : Prop where
  names : ∀ device, (world.replicas device).deviceId = device
  keeps : ∀ device, (world.replicas device).Keeps entity
  sentEntity : ∀ change ∈ world.sent, change.entity = entity
  exact : versionClock.Exact world.history
  sent : ∀ change ∈ world.sent, Recorded world.history change.version
  applied : ∀ device, ∀ version ∈ world.applied device, Recorded world.history version
  own : ∀ version, Recorded world.history version →
    version ∈ world.applied version.writer
  stored : ∀ device, (world.replicas device).slot entity = .missing ∨
    ∃ version ∈ world.applied device,
      (world.replicas device).slot entity = .stored version
  accounted : ∀ device, Accounted ((world.replicas device).slot entity)
    (world.dropped device) (world.applied device)
  seen : ∀ later held, (later, held) ∈ world.history →
    ∀ earlier ∈ held, dominates later.vv earlier.vv = true

section Accounted

variable {slot : Slot} {incoming : Version}

/-- A slot that a version is resolved against, and what it is afterwards. -/
def Slot.after (slot : Slot) (incoming : Version) : Slot :=
  if incoming.beats slot then .stored incoming else slot

theorem dominates_after_or_dropped (hreadable : slot ≠ .unreadable) {vv : VersionVector}
    (hdom : dominates slot.vv vv = true) :
    dominates (slot.after incoming).vv vv = true ∨
      ∃ lost ∈ droppedVv incoming slot, dominates lost vv = true := by
  cases slot with
  | missing => exact Or.inl (dominates_trans (dominates_empty incoming.vv) hdom)
  | unreadable => contradiction
  | stored current =>
      by_cases hbeats : incoming.beats (.stored current) = true
      · rw [Slot.after, if_pos hbeats]
        by_cases hover : dominates incoming.vv current.vv = true
        · exact Or.inl (dominates_trans hover hdom)
        · have hunder := Version.not_dominates_of_beats hbeats
          exact Or.inr ⟨current.vv, by simp [droppedVv, hunder, hover, hbeats], hdom⟩
      · rw [Slot.after, if_neg hbeats]
        exact Or.inl hdom

theorem dominates_incoming_or_dropped (incoming : Version) (hreadable : slot ≠ .unreadable) :
    dominates (slot.after incoming).vv incoming.vv = true ∨
      ∃ lost ∈ droppedVv incoming slot, dominates lost incoming.vv = true := by
  by_cases hbeats : incoming.beats slot = true
  · rw [Slot.after, if_pos hbeats]
    exact Or.inl (dominates_refl incoming.vv)
  · rw [Slot.after, if_neg hbeats]
    cases slot with
    | missing => exact absurd incoming.beats_missing hbeats
    | unreadable => contradiction
    | stored current =>
        by_cases hunder : dominates current.vv incoming.vv = true
        · exact Or.inl hunder
        · -- The incoming version loses without being dominated: it is concurrent.
          have hover : dominates incoming.vv current.vv = false := by
            rw [Bool.eq_false_iff]
            intro hover
            exact hbeats (Version.beats_stored_iff.mpr
              (resolve_of_dominates hover (Bool.eq_false_iff.mpr hunder)))
          exact Or.inr ⟨incoming.vv, by simp [droppedVv, hunder, hover, hbeats],
            dominates_refl incoming.vv⟩

theorem Accounted.deliver {dropped : List VersionVector} {applied : List Version}
    (haccounted : Accounted slot dropped applied) (hreadable : slot ≠ .unreadable) :
    Accounted (slot.after incoming) (dropped ++ droppedVv incoming slot)
      (applied ++ [incoming]) := by
  intro version hversion
  rcases List.mem_append.mp hversion with hold | hnew
  · rcases haccounted version hold with hslot | ⟨lost, hlost, hdom⟩
    · rcases dominates_after_or_dropped hreadable hslot with hafter | ⟨lost, hlost, hdom⟩
      · exact Or.inl hafter
      · exact Or.inr ⟨lost, List.mem_append_right _ hlost, hdom⟩
    · exact Or.inr ⟨lost, List.mem_append_left _ hlost, hdom⟩
  · rw [List.mem_singleton.mp hnew]
    rcases dominates_incoming_or_dropped incoming hreadable
      with hafter | ⟨lost, hlost, hdom⟩
    · exact Or.inl hafter
    · exact Or.inr ⟨lost, List.mem_append_right _ hlost, hdom⟩

end Accounted

section Step

variable {contentHash : List UInt8 → String} {entity : Entity} {world next : RowWorld}

theorem RowWorld.Fresh.sound (hfresh : world.Fresh entity) : world.Sound entity where
  names := hfresh.names
  keeps := hfresh.keeps
  sentEntity := by simp [hfresh.sent]
  exact := hfresh.history ▸ .nil
  sent := by simp [hfresh.sent]
  applied := by simp [hfresh.applied]
  own := by
    rintro version ⟨held, hheld⟩
    rw [hfresh.history] at hheld
    exact absurd hheld List.not_mem_nil
  stored := fun device => Or.inl (hfresh.missing device)
  accounted := by simp [Accounted, hfresh.applied]
  seen := by simp [hfresh.history]

theorem RowWorld.Sound.readable (hsound : world.Sound entity) (device : String) :
    (world.replicas device).slot entity ≠ .unreadable := by
  rcases hsound.stored device with hmissing | ⟨version, _, hstored⟩
  · simp [hmissing]
  · simp [hstored]

theorem RowWorld.Sound.deliver (hsound : world.Sound entity) {device : String}
    {place : Uuid → Nat} {change : Change} (hsent : change ∈ world.sent) :
    ({ world with
        replicas := Function.update world.replicas device
          ((world.replicas device).apply contentHash place change)
        applied := Function.update world.applied device
          (world.applied device ++ [change.version])
        dropped := Function.update world.dropped device
          (world.dropped device ++
            droppedVv change.version ((world.replicas device).slot entity)) } :
      RowWorld).Sound entity := by
  have hslot : ((world.replicas device).apply contentHash place change).slot entity =
      ((world.replicas device).slot entity).after change.version :=
    Replica.slot_apply (hsound.keeps device) (hsound.sentEntity change hsent)
  constructor
  · intro holder
    simp only [Function.update_apply]
    split
    · next heq => exact (Replica.deviceId_apply _ _).trans (heq ▸ hsound.names device)
    · exact hsound.names holder
  · intro holder
    simp only [Function.update_apply]
    split
    · exact Replica.keeps_apply change (hsound.keeps device)
    · exact hsound.keeps holder
  · exact hsound.sentEntity
  · exact hsound.exact
  · exact hsound.sent
  · intro holder version hversion
    simp only [Function.update_apply] at hversion
    split at hversion
    · rcases List.mem_append.mp hversion with hold | hnew
      · exact hsound.applied device version hold
      · exact List.mem_singleton.mp hnew ▸ hsound.sent change hsent
    · exact hsound.applied holder version hversion
  · intro version hversion
    have hmem := hsound.own version hversion
    simp only [Function.update_apply]
    split
    · next heq => exact List.mem_append_left _ (heq ▸ hmem)
    · exact hmem
  · intro holder
    simp only [Function.update_apply]
    split
    · rw [hslot, Slot.after]
      split
      · exact Or.inr ⟨change.version, by simp, rfl⟩
      · rcases hsound.stored device with hmissing | ⟨version, hversion, hstored⟩
        · exact Or.inl hmissing
        · exact Or.inr ⟨version, List.mem_append_left _ hversion, hstored⟩
    · exact hsound.stored holder
  · intro holder
    simp only [Function.update_apply]
    split
    · rw [hslot]
      exact (hsound.accounted device).deliver (hsound.readable device)
    · exact hsound.accounted holder
  · exact hsound.seen

/-- When the slot covers what was dropped, it covers all that was applied. -/
theorem RowWorld.Sound.slot_dominates (hsound : world.Sound entity) {device : String}
    (hcovers : ∀ vv ∈ world.dropped device,
      dominates ((world.replicas device).slot entity).vv vv = true)
    {version : Version} (hversion : version ∈ world.applied device) :
    dominates ((world.replicas device).slot entity).vv version.vv = true := by
  rcases hsound.accounted device version hversion with hslot | ⟨lost, hlost, hdom⟩
  · exact hslot
  · exact dominates_trans (hcovers lost hlost) hdom

/-- A local write counts exactly what its device has applied, and itself. -/
theorem RowWorld.Sound.countsExactly (hsound : world.Sound entity) {device : String}
    (hcovers : ∀ vv ∈ world.dropped device,
      dominates ((world.replicas device).slot entity).vv vv = true)
    {written : Version} (hwriter : written.writer = device)
    (hvv : written.vv = ((world.replicas device).slot entity).vv.increment device) :
    versionClock.CountsExactly world.history written (world.applied device) := by
  have hcount : ∀ key, versionClock.count written key =
      if device = key then count ((world.replicas device).slot entity).vv key + 1
      else count ((world.replicas device).slot entity).vv key := by
    intro key
    rw [← count_increment, ← hvv]
    rfl
  have hle : ∀ earlier ∈ world.applied device, ∀ key,
      count earlier.vv key ≤ count ((world.replicas device).slot entity).vv key :=
    fun earlier hearlier => dominates_iff.mp (hsound.slot_dominates hcovers hearlier)
  have hauthor : versionClock.author written = device := hwriter
  constructor
  · exact fun earlier hearlier => hsound.applied device earlier hearlier
  · intro earlier hearlier hsame
    have hmem := hsound.own earlier hearlier
    rw [show earlier.writer = device from hsame.trans hauthor] at hmem
    exact ⟨earlier, hmem, Or.inl rfl⟩
  · intro earlier hearlier key
    have hkey := hle earlier hearlier key
    rw [hcount]
    change count earlier.vv key ≤ _
    split <;> omega
  · intro earlier hearlier
    have hown := hle earlier hearlier device
    rw [hauthor, hcount, if_pos rfl]
    change count earlier.vv device < _
    omega
  · rw [hauthor, hcount, if_pos rfl]
    omega
  · intro key n hn
    rw [hcount] at hn ⊢
    -- What the slot counts is counted by the version that it stores.
    have hstored : n < count ((world.replicas device).slot entity).vv key →
        ∃ earlier ∈ world.applied device, n < versionClock.count earlier key := by
      intro hlt
      rcases hsound.stored device with hmissing | ⟨version, hversion, hslot⟩
      · rw [hmissing] at hlt
        change n < count ∅ key at hlt
        rw [count_empty] at hlt
        exact absurd hlt (Nat.not_lt_zero n)
      · rw [hslot] at hlt
        exact ⟨version, hversion, hlt⟩
    by_cases hkey : device = key
    · rw [if_pos hkey] at hn ⊢
      by_cases hlast : n = count ((world.replicas device).slot entity).vv key
      · exact Or.inl ⟨(hauthor.trans hkey).symm, congrArg (· + 1) hlast⟩
      · exact Or.inr (hstored (by omega))
    · rw [if_neg hkey] at hn
      exact Or.inr (hstored hn)

theorem RowWorld.Sound.write (hsound : world.Sound entity) {device : String} {ts : DateTime}
    {replica : Replica} {change : Change}
    (hcovers : ∀ vv ∈ world.dropped device,
      dominates ((world.replicas device).slot entity).vv vv = true)
    (hname : replica.deviceId = device) (hkeeps : replica.Keeps entity)
    (hlocal : LocalVersion entity ((world.replicas device).slot entity)
      (replica.slot entity) device change) :
    ({ replicas := Function.update world.replicas device replica
       clock := ts
       sent := world.sent ++ [change]
       applied := Function.update world.applied device
         (world.applied device ++ [change.version])
       dropped := world.dropped
       history := world.history ++ [(change.version, world.applied device)] } :
      RowWorld).Sound entity := by
  have hdominates : dominates change.version.vv
      ((world.replicas device).slot entity).vv = true := by
    rw [hlocal.vv]
    exact increment_dominates _ device
  constructor
  · intro holder
    simp only [Function.update_apply]
    split
    · next heq => exact hname.trans heq.symm
    · exact hsound.names holder
  · intro holder
    simp only [Function.update_apply]
    split
    · exact hkeeps
    · exact hsound.keeps holder
  · intro other hother
    rcases List.mem_append.mp hother with hold | hnew
    · exact hsound.sentEntity other hold
    · exact List.mem_singleton.mp hnew ▸ hlocal.entity
  · exact .snoc hsound.exact (hsound.countsExactly hcovers hlocal.writer hlocal.vv)
  · intro other hother
    rcases List.mem_append.mp hother with hold | hnew
    · exact recorded_append_left (hsound.sent other hold)
    · exact recorded_snoc.mpr (Or.inr (congrArg Change.version (List.mem_singleton.mp hnew)))
  · intro holder version hversion
    simp only [Function.update_apply] at hversion
    split at hversion
    · rcases List.mem_append.mp hversion with hold | hnew
      · exact recorded_append_left (hsound.applied device version hold)
      · exact recorded_snoc.mpr (Or.inr (List.mem_singleton.mp hnew))
    · exact recorded_append_left (hsound.applied holder version hversion)
  · intro version hversion
    simp only [Function.update_apply]
    rcases recorded_snoc.mp hversion with hold | rfl
    · have hmem := hsound.own version hold
      split
      · next heq => exact List.mem_append_left _ (heq ▸ hmem)
      · exact hmem
    · rw [if_pos hlocal.writer]
      simp
  · intro holder
    simp only [Function.update_apply]
    split
    · exact Or.inr ⟨change.version, by simp, hlocal.stored⟩
    · exact hsound.stored holder
  · intro holder
    simp only [Function.update_apply]
    split
    · intro version hversion
      rw [hlocal.stored]
      rcases List.mem_append.mp hversion with hold | hnew
      · exact Or.inl (dominates_trans hdominates (hsound.slot_dominates hcovers hold))
      · rw [List.mem_singleton.mp hnew]
        exact Or.inl (dominates_refl change.version.vv)
    · exact hsound.accounted holder
  · intro later held hmem earlier hearlier
    rcases List.mem_append.mp hmem with hold | hnew
    · exact hsound.seen later held hold earlier hearlier
    · obtain ⟨rfl, rfl⟩ := Prod.mk.inj (List.mem_singleton.mp hnew)
      exact dominates_trans hdominates (hsound.slot_dominates hcovers hearlier)

theorem rowStep_sound {step : RowStep} (hsound : world.Sound entity)
    (hcovers : CoversDropped entity world step)
    (hstep : rowStep contentHash entity world step = some next) : next.Sound entity := by
  cases step with
  | write device place ts changedAt write =>
      simp only [rowStep] at hstep
      split at hstep
      · next hguard =>
          split at hstep
          · next replica change hwrite =>
              split at hstep
              · have hkeeps := hsound.keeps device
                rw [← hguard.1] at hkeeps
                obtain ⟨hname, hkept, hlocal⟩ := Replica.write_spec hkeeps hwrite
                rw [hguard.1] at hkept hlocal
                rw [hsound.names device] at hname hlocal
                cases hstep
                exact hsound.write hcovers hname hkept hlocal
              · contradiction
          · contradiction
      · contradiction
  | deliver device place change =>
      simp only [rowStep] at hstep
      split at hstep
      · next hsent =>
          cases hstep
          exact hsound.deliver hsent
      · contradiction

end Step

/-- In every run whose writes cover what their device has dropped, vectors are
exact: one dominates another exactly when its author had seen that version, so
nothing is discarded as stale by a writer who had not seen it; and a version
dominates all that its device had applied. -/
theorem rowRun_vectors_exact {contentHash : List UInt8 → String} {entity : Entity}
    {start world : RowWorld} {steps : List RowStep} (hfresh : start.Fresh entity)
    (hcovers : MeetsAll (rowStep contentHash entity) (CoversDropped entity) start steps)
    (hrun : runAll (rowStep contentHash entity) start steps = some world) :
    (∀ earlier later, Recorded world.history earlier → Recorded world.history later →
      (dominates later.vv earlier.vv = true ↔
        earlier = later ∨ Past world.history earlier later)) ∧
      (∀ device version, (world.replicas device).slot entity = .stored version →
        ∀ change ∈ world.sent, dominates version.vv change.version.vv = true →
          change.version = version ∨ Past world.history change.version version) ∧
      ∀ later held, (later, held) ∈ world.history →
        ∀ earlier ∈ held, dominates later.vv earlier.vv = true := by
  have hsound : world.Sound entity :=
    runAll_invariant_of_meetsAll (rowStep contentHash entity)
      (fun _ _ _ hsound hcovers hstep => rowStep_sound hsound hcovers hstep)
      hfresh.sound hcovers hrun
  have hexact : ∀ earlier later, Recorded world.history earlier →
      Recorded world.history later → (dominates later.vv earlier.vv = true ↔
        earlier = later ∨ Past world.history earlier later) :=
    fun earlier later hearlier hlater =>
      dominates_iff_versionClock.trans (hsound.exact.count_le_iff hearlier hlater)
  refine ⟨hexact, fun device version hslot change hsent hdom => ?_, hsound.seen⟩
  rcases hsound.stored device with hmissing | ⟨stored, hstored, hsame⟩
  · rw [hmissing] at hslot
    contradiction
  · obtain rfl := Slot.stored.inj (hsame.symm.trans hslot)
    exact (hexact _ _ (hsound.sent change hsent)
      (hsound.applied device stored hstored)).mp hdom

instance (entity : Entity) (world : RowWorld) :
    ∀ step, Decidable (CoversDropped entity world step)
  | .write device _ _ _ _ => inferInstanceAs (Decidable (∀ vv ∈ world.dropped device,
      dominates ((world.replicas device).slot entity).vv vv = true))
  | .deliver _ _ _ => inferInstanceAs (Decidable True)

namespace RowCausalityWitness

def start : RowWorld where
  replicas := fun device =>
    if device = "F" then .files ⟨device, [], [], [], [], []⟩
    else .rows ⟨device, ∅, ∅, ∅, ∅, ∅, [], [], none⟩
  clock := 0
  sent := []
  applied := fun _ => []
  dropped := fun _ => []
  history := []

theorem start_fresh : start.Fresh (.notebook 7) where
  names := fun device => by
    simp only [start]
    split <;> rfl
  keeps := fun device => by
    simp only [start]
    split <;> trivial
  missing := fun device => by
    simp only [start]
    split <;> rfl
  sent := rfl
  applied := fun _ => rfl
  dropped := fun _ => rfl
  history := rfl

def notebook (ts : DateTime) (vv : VersionVector) (writer : String) : Notebook :=
  ⟨7, "", 0, ts, none, none, vv, writer⟩

/-- The vector that counts one operation of each of these devices. -/
def once (devices : List String) : VersionVector :=
  devices.foldl increment ∅

def writeAt (device : String) (ts : DateTime) (write : Notebook → LocalWrite) : RowStep :=
  .write device (fun _ => 0) ts ts (write (notebook ts ∅ ""))

def deliverTo (device : String) (change : Change) : RowStep :=
  .deliver device (fun _ => 0) change

theorem rowRun_vectors_exact_steps :
    ∃ world, runAll (rowStep (fun _ => "") (.notebook 7)) start
        [writeAt "R" 1 .createNotebook,
          deliverTo "F" (.notebookCreate (notebook 1 (once ["R"]) "R")),
          writeAt "F" 2 .updateNotebook] = some world ∧
      ((∀ earlier later, Recorded world.history earlier → Recorded world.history later →
        (dominates later.vv earlier.vv = true ↔
          earlier = later ∨ Past world.history earlier later)) ∧
      (∀ device version, (world.replicas device).slot (.notebook 7) = .stored version →
        ∀ change ∈ world.sent, dominates version.vv change.version.vv = true →
          change.version = version ∨ Past world.history change.version version) ∧
      ∀ later held, (later, held) ∈ world.history →
        ∀ earlier ∈ held, dominates later.vv earlier.vv = true) := by
  have hrun : (runAll (rowStep (fun _ => "") (.notebook 7)) start
      [writeAt "R" 1 .createNotebook,
        deliverTo "F" (.notebookCreate (notebook 1 (once ["R"]) "R")),
        writeAt "F" 2 .updateNotebook]).isSome = true := by decide
  obtain ⟨world, hworld⟩ := Option.isSome_iff_exists.mp hrun
  exact ⟨world, hworld, rowRun_vectors_exact start_fresh (by decide) hworld⟩

/-- R and D write the notebook without knowing of each other.  R takes D's later
version over and with it drops its own vector, so R's next operation counts as
its first again. -/
def steps : List RowStep :=
  [writeAt "R" 1 .createNotebook,
    writeAt "D" 2 .createNotebook,
    deliverTo "F" (.notebookCreate (notebook 1 (once ["R"]) "R")),
    writeAt "F" 3 .updateNotebook,
    deliverTo "R" (.notebookCreate (notebook 2 (once ["D"]) "D")),
    writeAt "R" 4 .updateNotebook,
    deliverTo "F" (.notebookUpdate (notebook 4 (once ["D", "R"]) "R")),
    writeAt "F" 5 .updateNotebook,
    deliverTo "D" (.notebookUpdate (notebook 3 (once ["R", "F"]) "F")),
    writeAt "D" 6 .updateNotebook]

def seen : Version := (notebook 5 (once ["D", "F", "R"]) "F").version

def unseen : Version := (notebook 6 (once ["D", "F", "R"]) "D").version

/-- F's version dominates D's, which was only written afterwards. -/
theorem rowRun_unseen_dominated :
    ∃ world, runAll (rowStep (fun _ => "") (.notebook 7)) start steps = some world ∧
      Recorded world.history unseen ∧ Recorded world.history seen ∧
      dominates seen.vv unseen.vv = true ∧ unseen ≠ seen ∧
      ¬ Past world.history unseen seen := by
  have hrun : ∃ world, runAll (rowStep (fun _ => "") (.notebook 7)) start steps =
      some world ∧ (∃ event ∈ world.history, event.1 = unseen) ∧
      (∃ event ∈ world.history, event.1 = seen) ∧
      ∀ event ∈ world.history, unseen ∉ event.2 := by
    have hsome : (runAll (rowStep (fun _ => "") (.notebook 7)) start steps).isSome = true := by
      decide
    obtain ⟨world, hworld⟩ := Option.isSome_iff_exists.mp hsome
    have hcheck : ((runAll (rowStep (fun _ => "") (.notebook 7)) start steps).all fun world =>
        decide ((∃ event ∈ world.history, event.1 = unseen) ∧
          (∃ event ∈ world.history, event.1 = seen) ∧
          ∀ event ∈ world.history, unseen ∉ event.2)) = true := by
      decide
    rw [hworld] at hcheck
    exact ⟨world, hworld, of_decide_eq_true hcheck⟩
  obtain ⟨world, hworld, ⟨event, hevent, hunseen⟩, ⟨other, hother, hseen⟩, hnever⟩ := hrun
  refine ⟨world, hworld, ⟨event.2, hunseen ▸ hevent⟩, ⟨other.2, hseen ▸ hother⟩,
    by decide, by decide, fun hpast => ?_⟩
  -- Nobody ever held it, so it is in nobody's past.
  obtain ⟨later, ⟨held, hheld, hmem⟩, -⟩ := Relation.TransGen.head'_iff.mp hpast
  exact hnever (later, held) hheld hmem

end RowCausalityWitness

end Keeplin
