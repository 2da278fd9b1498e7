/-
One note on any number of devices.  Devices append to their own logs, compact
them, and receive whole copies of each other's logs, old or new, in any order.
Comparing the vectors of two entries is then the same as asking whether one of
them lies in the causal past of the other.
-/
import Keeplin.NoteDir
import Keeplin.NoteLogCompaction
import Keeplin.VectorClock
import Keeplin.LabelledRun
import Mathlib.Logic.Function.Basic

namespace Keeplin

open VersionVector EventClock

/-- The devices' folders of the note, every content their own logs have had,
and each appended entry with the entries its author's folder then held. -/
structure NoteWorld where
  dirs : String → NoteDir
  snapshots : String → List NoteLog
  history : History NoteLogEntry

def NoteWorld.initial : NoteWorld :=
  ⟨fun _ => [], fun _ => [], []⟩

inductive NoteStep where
  | append (device : String) (timestamp : DateTime) (op : NoteOp)
  | compact (device : String)
  | replicate (source target : String) (snapshot : NoteLog)
  | relist (device : String) (dir : NoteDir)

/-- The world after `device` has written its own log. -/
def NoteWorld.writeOwn (world : NoteWorld) (device : String) (dir : NoteDir) :
    NoteWorld :=
  { world with
    dirs := Function.update world.dirs device dir
    snapshots := Function.update world.snapshots device
      (world.snapshots device ++ [ownNoteLog dir device]) }

/-- The entries a folder holds. -/
def heldEntries (dir : NoteDir) : List NoteLogEntry :=
  (readNoteLogs dir).flatten

/-- A step of the world.  Only the owner writes a log; a copy is any content
the owner's log has had; a folder may list its files in another order. -/
def noteStep (world : NoteWorld) : NoteStep → Option NoteWorld
  | .append device timestamp op =>
      (appendNoteOp device timestamp op (world.dirs device)).map fun appended =>
        { world.writeOwn device appended.2 with
          history := world.history ++ [(appended.1, heldEntries (world.dirs device))] }
  | .compact device =>
      let dir := world.dirs device
      if dir.holds device then
        some (world.writeOwn device
          (writeNoteLog dir device (compactOwnLog (ownNoteLog dir device))))
      else none
  | .replicate source target snapshot =>
      if source ≠ target ∧ snapshot ∈ world.snapshots source then
        some { world with
          dirs := Function.update world.dirs target
            (writeNoteLog (world.dirs target) source snapshot) }
      else none
  | .relist device dir =>
      if dir.Perm (world.dirs device) then
        some { world with dirs := Function.update world.dirs device dir }
      else none

/-- Entries as events: the device that wrote one and what its vector counts. -/
def entryClock : EventClock NoteLogEntry String where
  author := NoteLogEntry.deviceId
  count := fun entry device => count entry.vv device

theorem dominates_iff_entryClock {later earlier : NoteLogEntry} :
    dominates later.vv earlier.vv = true ↔
      ∀ device, entryClock.count earlier device ≤ entryClock.count later device :=
  dominates_iff

/-- One content of `owner`'s log: appended by the owner, and causally below
its head. -/
structure OwnerLog (history : History NoteLogEntry) (owner : String) (log : NoteLog) :
    Prop where
  recorded : ∀ entry ∈ log, Recorded history entry
  own : ∀ entry ∈ log, entry.deviceId = owner
  below : ∀ entry ∈ log, ∀ head, log.getLast? = some head →
    entry = head ∨ Past history entry head

/-- The log has everything `owner` has appended at or below its head. -/
def CoversOwn (history : History NoteLogEntry) (owner : String) (log : NoteLog) : Prop :=
  ∀ entry, Recorded history entry → entry.deviceId = owner →
    ∃ head, log.getLast? = some head ∧ (entry = head ∨ Past history entry head)

structure NoteWorld.Sound (world : NoteWorld) : Prop where
  exact : entryClock.Exact world.history
  snapshots : ∀ owner, ∀ log ∈ world.snapshots owner, OwnerLog world.history owner log
  files : ∀ device, ∀ file ∈ world.dirs device,
    OwnerLog world.history file.1 file.2
  current : ∀ device log, (device, log) ∈ world.dirs device →
    CoversOwn world.history device log
  present : ∀ device entry, Recorded world.history entry → entry.deviceId = device →
    ∃ log, (device, log) ∈ world.dirs device

theorem NoteWorld.initial_sound : NoteWorld.initial.Sound where
  exact := .nil
  snapshots := fun _ _ hlog => absurd hlog List.not_mem_nil
  files := fun _ _ hfile => absurd hfile List.not_mem_nil
  current := fun _ _ hfile => absurd hfile List.not_mem_nil
  present := fun _ _ hentry => by
    obtain ⟨held, hheld⟩ := hentry
    exact absurd hheld List.not_mem_nil

section OwnerLog

variable {history : History NoteLogEntry} {owner : String} {log : NoteLog}

theorem OwnerLog.append_history (howner : OwnerLog history owner log)
    (extra : History NoteLogEntry) : OwnerLog (history ++ extra) owner log where
  recorded := fun entry hentry => recorded_append_left (howner.recorded entry hentry)
  own := howner.own
  below := fun entry hentry head hhead =>
    (howner.below entry hentry head hhead).imp id past_append_left

/-- A part of the log with the same head is a content of the log too. -/
theorem OwnerLog.of_sublog (howner : OwnerLog history owner log) {part : NoteLog}
    (hmem : ∀ entry ∈ part, entry ∈ log) (hhead : part.getLast? = log.getLast?) :
    OwnerLog history owner part where
  recorded := fun entry hentry => howner.recorded entry (hmem entry hentry)
  own := fun entry hentry => howner.own entry (hmem entry hentry)
  below := fun entry hentry head hlast =>
    howner.below entry (hmem entry hentry) head (hhead ▸ hlast)

theorem OwnerLog.compact (howner : OwnerLog history owner log) :
    OwnerLog history owner (compactOwnLog log) :=
  howner.of_sublog (fun _ hentry => compactOwnLog_mem hentry)
    (compactOwnLog_same howner.own).head

theorem CoversOwn.of_head {other : NoteLog} (hcovers : CoversOwn history owner log)
    (hhead : other.getLast? = log.getLast?) : CoversOwn history owner other :=
  fun entry hentry hdevice => by
    rw [hhead]
    exact hcovers entry hentry hdevice

/-- A compaction, made or not, keeps the head of the own log. -/
theorem OwnerLog.compact_head (howner : OwnerLog history owner log) :
    (compactOwnLog log).getLast? = log.getLast? :=
  (compactOwnLog_same howner.own).head

end OwnerLog

section Held

theorem mem_heldEntries {dir : NoteDir} {entry : NoteLogEntry} :
    entry ∈ heldEntries dir ↔ ∃ file ∈ dir, entry ∈ file.2 := by
  rw [heldEntries, readNoteLogs, List.mem_flatten]
  constructor
  · rintro ⟨log, hlog, hentry⟩
    obtain ⟨file, hfile, rfl⟩ := List.mem_map.mp hlog
    exact ⟨file, hfile, hentry⟩
  · rintro ⟨file, hfile, hentry⟩
    exact ⟨file.2, List.mem_map_of_mem hfile, hentry⟩

theorem mem_heads {dir : NoteDir} {entry : NoteLogEntry} :
    entry ∈ heads (readNoteLogs dir) ↔ ∃ file ∈ dir, file.2.getLast? = some entry := by
  simp [heads, readNoteLogs]

/-- Every held entry lies at or below the head of its file. -/
theorem NoteWorld.Sound.exists_head {world : NoteWorld} (hsound : world.Sound)
    {device : String} {entry : NoteLogEntry}
    (hentry : entry ∈ heldEntries (world.dirs device)) :
    ∃ head ∈ heads (readNoteLogs (world.dirs device)),
      entry = head ∨ Past world.history entry head := by
  obtain ⟨file, hfile, hmem⟩ := mem_heldEntries.mp hentry
  cases hlast : file.2.getLast? with
  | none =>
      rw [List.getLast?_eq_none_iff] at hlast
      rw [hlast] at hmem
      exact absurd hmem List.not_mem_nil
  | some head =>
      exact ⟨head, mem_heads.mpr ⟨file, hfile, hlast⟩,
        (hsound.files device file hfile).below entry hmem head hlast⟩

theorem heads_held {dir : NoteDir} {head : NoteLogEntry}
    (hhead : head ∈ heads (readNoteLogs dir)) : head ∈ heldEntries dir := by
  obtain ⟨file, hfile, hlast⟩ := mem_heads.mp hhead
  exact mem_heldEntries.mpr ⟨file, hfile, List.mem_of_getLast? hlast⟩

theorem NoteWorld.Sound.held_recorded {world : NoteWorld} (hsound : world.Sound)
    {device : String} {entry : NoteLogEntry}
    (hentry : entry ∈ heldEntries (world.dirs device)) :
    Recorded world.history entry := by
  obtain ⟨file, hfile, hmem⟩ := mem_heldEntries.mp hentry
  exact (hsound.files device file hfile).recorded entry hmem

/-- The joined vector of a folder counts what its entries count. -/
theorem NoteWorld.Sound.count_held_le {world : NoteWorld} (hsound : world.Sound)
    {device : String} {entry : NoteLogEntry}
    (hentry : entry ∈ heldEntries (world.dirs device)) (key : String) :
    count entry.vv key ≤ count (mergedVv (heads (readNoteLogs (world.dirs device)))) key := by
  obtain ⟨head, hhead, heq | hpast⟩ := hsound.exists_head hentry
  · exact heq ▸ le_count_mergedVv hhead key
  · exact Nat.le_trans (hsound.exact.past_count_le hpast key)
      (le_count_mergedVv hhead key)

/-- Everything a device has appended lies at or below an entry it holds. -/
theorem NoteWorld.Sound.exists_held_own {world : NoteWorld} (hsound : world.Sound)
    {device : String} {entry : NoteLogEntry} (hentry : Recorded world.history entry)
    (hdevice : entry.deviceId = device) :
    ∃ between ∈ heldEntries (world.dirs device),
      entry = between ∨ Past world.history entry between := by
  obtain ⟨log, hfile⟩ := hsound.present device entry hentry hdevice
  obtain ⟨head, hlast, hplace⟩ := hsound.current device log hfile entry hentry hdevice
  exact ⟨head, mem_heldEntries.mpr ⟨_, hfile, List.mem_of_getLast? hlast⟩, hplace⟩

end Held

section Append

variable {world : NoteWorld} {device : String} {timestamp : DateTime} {op : NoteOp}
  {entry : NoteLogEntry} {dir : NoteDir}

/-- What an append adds: one entry after the own log, maybe compacted. -/
theorem appendNoteOp_cases {before : NoteDir}
    (happend : appendNoteOp device timestamp op before = some (entry, dir)) :
    entry.deviceId = device ∧
      entry.vv = (mergedVv (heads (readNoteLogs before))).increment device ∧
      ∃ log, dir = writeNoteLog before device log ∧
        (log = ownNoteLog before device ++ [entry] ∨
          log = compactOwnLog (ownNoteLog before device ++ [entry])) := by
  obtain ⟨merged, hmerged, heq⟩ := Option.map_eq_some_iff.mp happend
  obtain ⟨rfl, rfl⟩ := Prod.mk.inj heq
  refine ⟨rfl, by rw [merge_vv hmerged], _, rfl, ?_⟩
  split
  · exact Or.inr rfl
  · exact Or.inl rfl

theorem NoteWorld.Sound.countsExactly (hsound : world.Sound)
    (happend : appendNoteOp device timestamp op (world.dirs device) = some (entry, dir)) :
    entryClock.CountsExactly world.history entry (heldEntries (world.dirs device)) := by
  obtain ⟨hdevice, hvv, -⟩ := appendNoteOp_cases happend
  have hcount : ∀ key, entryClock.count entry key =
      if device = key then
        count (mergedVv (heads (readNoteLogs (world.dirs device)))) key + 1
      else count (mergedVv (heads (readNoteLogs (world.dirs device)))) key := by
    intro key
    rw [← count_increment, ← hvv]
    rfl
  have hauthor : entryClock.author entry = device := hdevice
  constructor
  · exact fun earlier hearlier => hsound.held_recorded hearlier
  · intro earlier hearlier hsame
    exact hsound.exists_held_own hearlier (hsame.trans hauthor)
  · intro earlier hearlier key
    have hle := hsound.count_held_le hearlier key
    rw [hcount]
    change count earlier.vv key ≤ _
    split <;> omega
  · intro earlier hearlier
    have hle := hsound.count_held_le hearlier device
    rw [hauthor, hcount, if_pos rfl]
    change count earlier.vv device < _
    omega
  · rw [hauthor, hcount, if_pos rfl]
    omega
  · intro key n hn
    rw [hcount] at hn ⊢
    by_cases hkey : device = key
    · rw [if_pos hkey] at hn ⊢
      by_cases hlast : n + 1 = count (mergedVv (heads (readNoteLogs (world.dirs device)))) key + 1
      · exact Or.inl ⟨(hauthor.trans hkey).symm, hlast⟩
      · have hmerged : n < count (mergedVv (heads (readNoteLogs (world.dirs device)))) key := by
          omega
        obtain ⟨head, hhead, hlt⟩ := exists_head_of_lt_count_mergedVv hmerged
        exact Or.inr ⟨head, heads_held hhead, hlt⟩
    · rw [if_neg hkey] at hn
      obtain ⟨head, hhead, hlt⟩ := exists_head_of_lt_count_mergedVv hn
      exact Or.inr ⟨head, heads_held hhead, hlt⟩

/-- The own log before an append, whether its file exists or not. -/
theorem NoteWorld.Sound.ownNoteLog_mem_held (hsound : world.Sound)
    {old : NoteLogEntry} (hold : old ∈ ownNoteLog (world.dirs device) device) :
    old ∈ heldEntries (world.dirs device) ∧ old.deviceId = device := by
  by_cases hexists : ∃ log, (device, log) ∈ world.dirs device
  · have hfile := ownNoteLog_mem hexists
    exact ⟨mem_heldEntries.mpr ⟨_, hfile, hold⟩, (hsound.files device _ hfile).own old hold⟩
  · rw [ownNoteLog_of_missing fun log hlog => hexists ⟨log, hlog⟩] at hold
    exact absurd hold List.not_mem_nil

theorem NoteWorld.Sound.ownerLog_append (hsound : world.Sound)
    (hdevice : entry.deviceId = device) :
    OwnerLog (world.history ++ [(entry, heldEntries (world.dirs device))]) device
      (ownNoteLog (world.dirs device) device ++ [entry]) := by
  have hlink : ∀ old ∈ ownNoteLog (world.dirs device) device,
      Past (world.history ++ [(entry, heldEntries (world.dirs device))]) old entry :=
    fun old hold => .single
      ⟨_, by simp, (hsound.ownNoteLog_mem_held hold).1⟩
  constructor
  · intro old hold
    rcases List.mem_append.mp hold with hbefore | hnew
    · exact recorded_append_left
        (hsound.held_recorded (hsound.ownNoteLog_mem_held hbefore).1)
    · exact recorded_snoc.mpr (Or.inr (List.mem_singleton.mp hnew))
  · intro old hold
    rcases List.mem_append.mp hold with hbefore | hnew
    · exact (hsound.ownNoteLog_mem_held hbefore).2
    · exact List.mem_singleton.mp hnew ▸ hdevice
  · intro old hold head hhead
    rw [List.getLast?_append, List.getLast?_singleton, Option.some_or,
      Option.some.injEq] at hhead
    subst hhead
    rcases List.mem_append.mp hold with hbefore | hnew
    · exact Or.inr (hlink old hbefore)
    · exact Or.inl (List.mem_singleton.mp hnew)

theorem NoteWorld.Sound.coversOwn_append (hsound : world.Sound) (device : String)
    (entry : NoteLogEntry) :
    CoversOwn (world.history ++ [(entry, heldEntries (world.dirs device))]) device
      (ownNoteLog (world.dirs device) device ++ [entry]) := by
  intro other hother hauthor
  refine ⟨entry, by simp, ?_⟩
  rcases recorded_snoc.mp hother with hold | rfl
  · obtain ⟨between, hbetween, hplace⟩ := hsound.exists_held_own hold hauthor
    have hlink : Past (world.history ++ [(entry, heldEntries (world.dirs device))])
        between entry := .single ⟨_, by simp, hbetween⟩
    rcases hplace with rfl | hpast
    · exact Or.inr hlink
    · exact Or.inr ((past_append_left hpast).trans hlink)
  · exact Or.inl rfl

end Append

section Step

variable {world : NoteWorld} {device : String}

/-- Writing the own log keeps the world sound when the new content is a log
of the device that covers all it has appended. -/
theorem NoteWorld.Sound.writeOwn (hsound : world.Sound)
    {history : History NoteLogEntry} {log : NoteLog}
    (hgrown : history = world.history ∨
      ∃ entry held, entry.deviceId = device ∧ history = world.history ++ [(entry, held)])
    (hexact : entryClock.Exact history) (howner : OwnerLog history device log)
    (hcovers : CoversOwn history device log) :
    { world.writeOwn device (writeNoteLog (world.dirs device) device log) with
      history := history : NoteWorld }.Sound := by
  have hkeep : ∀ {owner : String} {old : NoteLog}, OwnerLog world.history owner old →
      OwnerLog history owner old := by
    intro owner old hold
    rcases hgrown with rfl | ⟨entry, held, _, rfl⟩
    · exact hold
    · exact hold.append_history _
  have hothers : ∀ {other : NoteLogEntry}, Recorded history other →
      other.deviceId ≠ device → Recorded world.history other := by
    intro other hother hne
    rcases hgrown with rfl | ⟨entry, held, hentry, rfl⟩
    · exact hother
    · rcases recorded_snoc.mp hother with hold | rfl
      · exact hold
      · exact absurd hentry hne
  have hpast : ∀ {first second : NoteLogEntry}, Past world.history first second →
      Past history first second := by
    intro first second hlink
    rcases hgrown with rfl | ⟨entry, held, _, rfl⟩
    · exact hlink
    · exact past_append_left hlink
  constructor
  · exact hexact
  · intro owner snapshot hsnapshot
    simp only [NoteWorld.writeOwn, Function.update_apply] at hsnapshot
    split at hsnapshot
    · next heq =>
        subst heq
        rcases List.mem_append.mp hsnapshot with hold | hnew
        · exact hkeep (hsound.snapshots owner snapshot hold)
        · rw [ownNoteLog_writeNoteLog, List.mem_singleton] at hnew
          exact hnew ▸ howner
    · exact hkeep (hsound.snapshots owner snapshot hsnapshot)
  · intro holder file hfile
    simp only [NoteWorld.writeOwn, Function.update_apply] at hfile
    split at hfile
    · next heq =>
        rcases Directory.eq_or_mem_of_mem_put hfile with rfl | ⟨hold, _⟩
        · exact howner
        · exact hkeep (hsound.files device file hold)
    · exact hkeep (hsound.files holder file hfile)
  · intro holder found hfound
    simp only [NoteWorld.writeOwn, Function.update_apply] at hfound
    split at hfound
    · next heq =>
        subst heq
        exact Directory.eq_of_mem_put hfound ▸ hcovers
    · next hne =>
        intro other hother hauthor
        obtain ⟨head, hhead, hplace⟩ := hsound.current holder found hfound other
          (hothers hother fun heq => hne (hauthor.symm.trans heq)) hauthor
        exact ⟨head, hhead, hplace.imp id hpast⟩
  · intro holder other hother hauthor
    simp only [NoteWorld.writeOwn, Function.update_apply]
    split
    · next heq =>
        subst heq
        exact ⟨log, Directory.mem_put_self _ _ _ _⟩
    · next hne =>
        exact hsound.present holder other
          (hothers hother fun heq => hne (hauthor.symm.trans heq)) hauthor

/-- A folder that holds contents of the owners' logs and the device's current
own log, in whatever order, keeps the world sound. -/
theorem NoteWorld.Sound.updateDir (hsound : world.Sound) {dir : NoteDir}
    (hfiles : ∀ file ∈ dir, OwnerLog world.history file.1 file.2)
    (hown : ∀ log, (device, log) ∈ dir ↔ (device, log) ∈ world.dirs device) :
    { world with dirs := Function.update world.dirs device dir : NoteWorld }.Sound where
  exact := hsound.exact
  snapshots := hsound.snapshots
  files := fun holder file hfile => by
    simp only [Function.update_apply] at hfile
    split at hfile
    · exact hfiles file hfile
    · exact hsound.files holder file hfile
  current := fun holder log hlog => by
    simp only [Function.update_apply] at hlog
    split at hlog
    · next heq =>
        subst heq
        exact hsound.current holder log ((hown log).mp hlog)
    · exact hsound.current holder log hlog
  present := fun holder entry hentry hauthor => by
    obtain ⟨log, hlog⟩ := hsound.present holder entry hentry hauthor
    simp only [Function.update_apply]
    split
    · next heq =>
        subst heq
        exact ⟨log, (hown log).mpr hlog⟩
    · exact ⟨log, hlog⟩

theorem noteStep_sound {next : NoteWorld} {step : NoteStep} (hsound : world.Sound)
    (hstep : noteStep world step = some next) : next.Sound := by
  cases step with
  | append device timestamp op =>
      obtain ⟨⟨entry, dir⟩, happend, rfl⟩ := Option.map_eq_some_iff.mp hstep
      have hcounted := hsound.countsExactly happend
      obtain ⟨hdevice, -, log, rfl, hlog⟩ := appendNoteOp_cases happend
      have howner := hsound.ownerLog_append hdevice
      have hcovers := hsound.coversOwn_append device entry
      have hgrown : ∃ made held, made.deviceId = device ∧
          world.history ++ [(entry, heldEntries (world.dirs device))] =
            world.history ++ [(made, held)] := ⟨entry, _, hdevice, rfl⟩
      rcases hlog with rfl | rfl
      · exact hsound.writeOwn (Or.inr hgrown) (hsound.exact.snoc hcounted) howner hcovers
      · exact hsound.writeOwn (Or.inr hgrown) (hsound.exact.snoc hcounted) howner.compact
          (hcovers.of_head howner.compact_head)
  | compact device =>
      simp only [noteStep, Option.ite_none_right_eq_some] at hstep
      obtain ⟨hexists, heq⟩ := hstep
      rw [Option.some.injEq] at heq
      have hmem := ownNoteLog_mem (Directory.holds_iff.mp hexists)
      have howner := hsound.files device _ hmem
      have hcovers := hsound.current device _ hmem
      rw [← heq]
      exact hsound.writeOwn (Or.inl rfl) hsound.exact howner.compact
        (hcovers.of_head howner.compact_head)
  | replicate source target snapshot =>
      simp only [noteStep, Option.ite_none_right_eq_some] at hstep
      obtain ⟨⟨hne, hsnapshot⟩, heq⟩ := hstep
      rw [Option.some.injEq] at heq
      rw [← heq]
      apply hsound.updateDir
      · intro file hfile
        rcases Directory.eq_or_mem_of_mem_put hfile with rfl | ⟨hold, _⟩
        · exact hsound.snapshots source snapshot hsnapshot
        · exact hsound.files target file hold
      · intro log
        constructor
        · intro hlog
          rcases Directory.eq_or_mem_of_mem_put hlog with hnew | ⟨hold, _⟩
          · exact absurd (Prod.mk.inj hnew).1.symm hne
          · exact hold
        · exact fun hlog => Directory.mem_put_of_ne hlog hne.symm
  | relist device dir =>
      simp only [noteStep, Option.ite_none_right_eq_some] at hstep
      obtain ⟨hperm, heq⟩ := hstep
      rw [Option.some.injEq] at heq
      rw [← heq]
      exact hsound.updateDir
        (fun file hfile => hsound.files device file (hperm.mem_iff.mp hfile))
        fun log => hperm.mem_iff

theorem noteRun_sound {steps : List NoteStep}
    (hrun : runAll noteStep NoteWorld.initial steps = some world) : world.Sound :=
  runAll_invariant noteStep (fun _ _ _ hsound hstep => noteStep_sound hsound hstep)
    NoteWorld.initial_sound hrun

end Step

/-- A device knows what it holds and all that lies in the past of that. -/
def NoteWorld.Knows (world : NoteWorld) (device : String) (entry : NoteLogEntry) : Prop :=
  ∃ held ∈ heldEntries (world.dirs device), entry = held ∨ Past world.history entry held

theorem NoteWorld.Sound.dominates_iff {world : NoteWorld} (hsound : world.Sound)
    {earlier later : NoteLogEntry} (hearlier : Recorded world.history earlier)
    (hlater : Recorded world.history later) :
    dominates later.vv earlier.vv = true ↔
      earlier = later ∨ Past world.history earlier later :=
  dominates_iff_entryClock.trans (hsound.exact.count_le_iff hearlier hlater)

theorem NoteWorld.Sound.exists_head_of_knows {world : NoteWorld} (hsound : world.Sound)
    {device : String} {entry : NoteLogEntry} (hknows : world.Knows device entry) :
    ∃ head ∈ heads (readNoteLogs (world.dirs device)),
      entry = head ∨ Past world.history entry head := by
  obtain ⟨held, hheld, hplace⟩ := hknows
  obtain ⟨head, hhead, hbelow⟩ := hsound.exists_head hheld
  refine ⟨head, hhead, ?_⟩
  rcases hplace with rfl | hpast
  · exact hbelow
  · rcases hbelow with rfl | hmore
    · exact Or.inr hpast
    · exact Or.inr (hpast.trans hmore)

/-- Some element of a non-empty list is below none of the others. -/
private theorem exists_unsurpassed {A : Type} (below : A → A → Prop)
    (hirrefl : ∀ item, ¬ below item item)
    (htrans : ∀ first second third, below first second → below second third →
      below first third) {list : List A} (hne : list ≠ []) :
    ∃ top ∈ list, ∀ item ∈ list, ¬ below top item := by
  induction list with
  | nil => contradiction
  | cons head rest ih =>
      by_cases hrest : rest = []
      · subst hrest
        refine ⟨head, List.mem_cons_self, fun item hitem => ?_⟩
        rw [List.mem_singleton.mp hitem]
        exact hirrefl head
      · obtain ⟨top, htop, hmaximal⟩ := ih hrest
        by_cases hhead : below top head
        · refine ⟨head, List.mem_cons_self, fun item hitem hbelow => ?_⟩
          rcases List.mem_cons.mp hitem with rfl | htail
          · exact hirrefl _ hbelow
          · exact hmaximal item htail (htrans _ _ _ hhead hbelow)
        · refine ⟨top, List.mem_cons_of_mem head htop, fun item hitem => ?_⟩
          rcases List.mem_cons.mp hitem with rfl | htail
          · exact hhead
          · exact hmaximal item htail

section Frontier

variable {history : History NoteLogEntry} (hexact : entryClock.Exact history)

include hexact in
/-- Of recorded entries the frontier has the latest. -/
theorem mem_frontier_iff_past {entries : List NoteLogEntry}
    (hrecorded : ∀ entry ∈ entries, Recorded history entry) {entry : NoteLogEntry} :
    entry ∈ frontier entries ↔
      entry ∈ entries ∧ ∀ later ∈ entries, ¬ Past history entry later := by
  have hdominates : ∀ first ∈ entries, ∀ second ∈ entries,
      dominates second.vv first.vv = true ↔ first = second ∨ Past history first second :=
    fun first hfirst second hsecond => dominates_iff_entryClock.trans
      (hexact.count_le_iff (hrecorded first hfirst) (hrecorded second hsecond))
  rw [mem_frontier_iff]
  refine and_congr_right fun hentry => forall₂_congr fun later hlater => ?_
  constructor
  · intro hsame hpast
    have hvv := hsame ((hdominates entry hentry later hlater).mpr (.inr hpast))
    have hback : dominates entry.vv later.vv = true := hvv ▸ dominates_refl entry.vv
    rcases (hdominates later hlater entry hentry).mp hback with rfl | hbefore
    · exact hexact.past_irrefl _ hpast
    · exact hexact.past_irrefl _ (hpast.trans hbefore)
  · intro hnot hdom
    rcases (hdominates entry hentry later hlater).mp hdom with rfl | hpast
    · rfl
    · exact absurd hpast hnot

include hexact in
/-- The `expect` of a merge holds of logs whose heads were recorded. -/
theorem merge_isSome_of_recorded {logs : List NoteLog}
    (hrecorded : ∀ head ∈ heads logs, Recorded history head) : (merge logs).isSome = true := by
  unfold merge
  split
  · rfl
  next hsome =>
  have hne : heads logs ≠ [] := by simpa using hsome
  obtain ⟨top, htop, hlatest⟩ := exists_unsurpassed
    (Past history) hexact.past_irrefl (fun _ _ _ hfirst hsecond => hfirst.trans hsecond) hne
  have hfrontier : top ∈ frontier (heads logs) :=
    (mem_frontier_iff_past hexact hrecorded).mpr ⟨htop, hlatest⟩
  rw [Option.isSome_map, Option.isSome_iff_ne_none, Ne, maxBy_eq_none_iff]
  exact List.ne_nil_of_mem hfrontier

end Frontier

theorem NoteWorld.Sound.mem_frontier_iff {world : NoteWorld} (hsound : world.Sound)
    (device : String) (entry : NoteLogEntry) :
    entry ∈ frontier (heads (readNoteLogs (world.dirs device))) ↔
      world.Knows device entry ∧
        ∀ other, world.Knows device other → ¬ Past world.history entry other := by
  rw [mem_frontier_iff_past hsound.exact fun head hhead => hsound.held_recorded (heads_held hhead)]
  constructor
  · rintro ⟨hhead, hlatest⟩
    refine ⟨⟨entry, heads_held hhead, Or.inl rfl⟩, fun other hother hpast => ?_⟩
    obtain ⟨top, htop, rfl | hmore⟩ := hsound.exists_head_of_knows hother
    · exact hlatest _ htop hpast
    · exact hlatest top htop (hpast.trans hmore)
  · rintro ⟨hknows, hlatest⟩
    obtain ⟨head, hhead, rfl | hpast⟩ := hsound.exists_head_of_knows hknows
    · exact ⟨hhead, fun other hother => hlatest other ⟨other, heads_held hother, Or.inl rfl⟩⟩
    · exact absurd hpast (hlatest head ⟨head, heads_held hhead, Or.inl rfl⟩)

/-- The `expect` of a merge holds in every reachable world, so a device can
always append. -/
theorem NoteWorld.Sound.merge_isSome {world : NoteWorld} (hsound : world.Sound)
    (device : String) : (merge (readNoteLogs (world.dirs device))).isSome = true :=
  merge_isSome_of_recorded hsound.exact fun _ hhead => hsound.held_recorded (heads_held hhead)

/-- In every run, an entry's vector dominates another's exactly when it is that
entry or has it in its causal past; and a merge's frontier is exactly what the
device knows and no entry it knows was written after seeing. -/
theorem noteRun_vectors_exact {steps : List NoteStep} {world : NoteWorld}
    (hrun : runAll noteStep NoteWorld.initial steps = some world) :
    (∀ earlier later, Recorded world.history earlier → Recorded world.history later →
      (dominates later.vv earlier.vv = true ↔
        earlier = later ∨ Past world.history earlier later)) ∧
      ∀ device entry, entry ∈ frontier (heads (readNoteLogs (world.dirs device))) ↔
        world.Knows device entry ∧
          ∀ other, world.Knows device other → ¬ Past world.history entry other :=
  have hsound := noteRun_sound hrun
  ⟨fun _ _ hearlier hlater => hsound.dominates_iff hearlier hlater,
    hsound.mem_frontier_iff⟩

namespace NoteCausalityWitness

def deleted : NoteLogEntry := ⟨(∅ : VersionVector).increment "A", 5, "A", .tombstone 5⟩

def deletedAgain : NoteLogEntry := ⟨deleted.vv.increment "B", 3, "B", .tombstone 3⟩

/-- One device deletes the note and another does so after seeing that. -/
def steps : List NoteStep :=
  [.append "A" 5 (.tombstone 5), .replicate "A" "B" [deleted], .append "B" 3 (.tombstone 3),
    .compact "B"]

theorem noteRun_vectors_exact_steps :
    ∃ world, runAll noteStep NoteWorld.initial steps = some world ∧
      world.history = [(deleted, []), (deletedAgain, [deleted])] ∧
      Past world.history deleted deletedAgain ∧
      ((∀ earlier later, Recorded world.history earlier → Recorded world.history later →
        (dominates later.vv earlier.vv = true ↔
          earlier = later ∨ Past world.history earlier later)) ∧
        ∀ device entry, entry ∈ frontier (heads (readNoteLogs (world.dirs device))) ↔
          world.Knows device entry ∧
            ∀ other, world.Knows device other → ¬ Past world.history entry other) := by
  have hrun : (runAll noteStep NoteWorld.initial steps).map NoteWorld.history =
      some [(deleted, []), (deletedAgain, [deleted])] := by decide
  obtain ⟨world, hworld, hhistory⟩ := Option.map_eq_some_iff.mp hrun
  have hpast : Past world.history deleted deletedAgain := by
    rw [hhistory]
    exact .single ⟨[deleted], List.mem_cons_of_mem _ List.mem_cons_self,
      List.mem_singleton_self deleted⟩
  exact ⟨world, hworld, hhistory, hpast, noteRun_vectors_exact hworld⟩

end NoteCausalityWitness

end Keeplin
