/-
What devices show of one note.  The joined vector of a folder counts exactly the
entries its device knows, so devices with one vector pick one winner.  Devices whose
copies of each log have one head merge to the same note as well, however the copies
were compacted and listed.
-/
import Keeplin.SeenLogs

namespace Keeplin

open VersionVector EventClock

/-- The log of a device as it would be had it never been compacted. -/
def writtenBy (history : History NoteLogEntry) (owner : String) : NoteLog :=
  (history.map Prod.fst).filter fun entry => entry.deviceId = owner

/-- The log has what a merge needs of all that the owner had written at some moment. -/
def Abridges (history : History NoteLogEntry) (owner : String) (log : NoteLog) : Prop :=
  log ≠ [] ∧ ∃ part, part <+: writtenBy history owner ∧ SameForMerge log part

/-- Each folder lists a file once, its logs abridge what their owners have written, and
the vectors name the devices that they count. -/
structure NoteWorld.Filed (world : NoteWorld) : Prop where
  names : ∀ device, ((world.dirs device).map Prod.fst).Nodup
  snapshots : ∀ owner, ∀ log ∈ world.snapshots owner, Abridges world.history owner log
  files : ∀ device, ∀ file ∈ world.dirs device, Abridges world.history file.1 file.2
  own : ∀ device, SameForMerge (ownNoteLog (world.dirs device) device)
    (writtenBy world.history device)
  named : ∀ entry, Recorded world.history entry → ∀ device, device ∈ entry.vv →
    0 < count entry.vv device

namespace NoteWorld

variable {world next : NoteWorld} {device : String}

/-- The vector a device's logs join to. -/
def joined (world : NoteWorld) (device : String) : VersionVector :=
  mergedVv (heads (readNoteLogs (world.dirs device)))

/-- What a device shows of the note. -/
def shown (world : NoteWorld) (device : String) : Option Merged :=
  merge (readNoteLogs (world.dirs device))

end NoteWorld

section Written

variable {history : History NoteLogEntry} {owner device : String} {log : NoteLog}

theorem writtenBy_snoc (entry : NoteLogEntry) (held : List NoteLogEntry) :
    writtenBy (history ++ [(entry, held)]) owner =
      if entry.deviceId = owner then writtenBy history owner ++ [entry]
      else writtenBy history owner := by
  simp only [writtenBy, List.map_append, List.filter_append, List.map_cons, List.map_nil,
    List.filter_cons, List.filter_nil, decide_eq_true_eq]
  split
  · rfl
  · exact List.append_nil _

theorem writtenBy_grows (entry : NoteLogEntry) (held : List NoteLogEntry) :
    writtenBy history owner <+: writtenBy (history ++ [(entry, held)]) owner := by
  rw [writtenBy_snoc]
  split
  · exact List.prefix_append _ _
  · exact List.prefix_refl _

theorem Abridges.append_history (habridges : Abridges history owner log) (entry : NoteLogEntry)
    (held : List NoteLogEntry) : Abridges (history ++ [(entry, held)]) owner log := by
  obtain ⟨hne, part, hpart, hsame⟩ := habridges
  exact ⟨hne, part, hpart.trans (writtenBy_grows entry held), hsame⟩

theorem SameForMerge.ne_nil {other : NoteLog} (hsame : SameForMerge log other)
    (hne : other ≠ []) : log ≠ [] := by
  rintro rfl
  have hlast := hsame.head
  rw [List.getLast?_nil, eq_comm, List.getLast?_eq_none_iff] at hlast
  exact hne hlast

/-- Beginnings of a list without duplicates are told apart by their last item. -/
theorem prefix_eq_of_getLast? {A : Type} {list first second : List A} (hnodup : list.Nodup)
    (hfirst : first <+: list) (hsecond : second <+: list)
    (hlast : first.getLast? = second.getLast?) : first = second := by
  have hshorter : ∀ {part whole : List A}, part <+: whole → whole.Nodup →
      part.getLast? = whole.getLast? → part = whole := by
    rintro part _ ⟨rest, rfl⟩ hdistinct hsame
    cases rest using List.reverseRecOn with
    | nil => rw [List.append_nil]
    | append_singleton rest last =>
        rw [← List.append_assoc, List.getLast?_concat] at hsame
        have hmem := List.mem_of_getLast? hsame
        exact absurd rfl ((List.nodup_append.mp hdistinct).2.2 last hmem last (by simp))
  rcases List.prefix_or_prefix_of_prefix hfirst hsecond with hbelow | hbelow
  · exact hshorter hbelow (hnodup.sublist hsecond.sublist) hlast
  · exact (hshorter hbelow (hnodup.sublist hfirst.sublist) hlast.symm).symm

/-- Two abridgements of an owner's log with one head are the same for a merge. -/
theorem Abridges.same_of_head {other : NoteLog} (hexact : entryClock.Exact history)
    (hlog : Abridges history owner log) (hother : Abridges history owner other)
    (hhead : log.getLast? = other.getLast?) : SameForMerge log other := by
  obtain ⟨-, part, hpart, hsame⟩ := hlog
  obtain ⟨-, rest, hrest, hsameRest⟩ := hother
  have hnodup : (writtenBy history owner).Nodup := hexact.nodup_events.filter _
  have hlast : part.getLast? = rest.getLast? := by
    rw [← hsame.head, ← hsameRest.head, hhead]
  obtain rfl := prefix_eq_of_getLast? hnodup hpart hrest hlast
  exact ⟨hhead, hsame.newest.trans hsameRest.newest.symm⟩

end Written

section Step

variable {world next : NoteWorld} {device : String}

theorem NoteWorld.initial_filed : NoteWorld.initial.Filed where
  names := fun _ => List.nodup_nil
  snapshots := fun _ _ hlog => absurd hlog List.not_mem_nil
  files := fun _ _ hfile => absurd hfile List.not_mem_nil
  own := fun _ => ⟨rfl, rfl⟩
  named := fun _ hentry => by
    obtain ⟨held, hheld⟩ := hentry
    exact absurd hheld List.not_mem_nil

theorem Directory.nodup_writeNoteLog {dir : NoteDir} {owner : String} {log : NoteLog}
    (hnodup : (dir.map Prod.fst).Nodup) :
    ((writeNoteLog dir owner log).map Prod.fst).Nodup :=
  nodup_put hnodup

/-- Writing the own log keeps a world filed when the new content is what a merge needs of
all that the device has written. -/
theorem NoteWorld.Filed.writeOwn (hfiled : world.Filed) {history : History NoteLogEntry}
    {log : NoteLog}
    (hgrown : history = world.history ∨
      ∃ entry : NoteLogEntry, ∃ held, entry.deviceId = device ∧
        history = world.history ++ [(entry, held)] ∧
          ∀ key, key ∈ entry.vv → 0 < count entry.vv key)
    (hne : writtenBy history device ≠ []) (hlog : SameForMerge log (writtenBy history device)) :
    { world.writeOwn device (writeNoteLog (world.dirs device) device log) with
      history := history : NoteWorld }.Filed := by
  have hnew : Abridges history device log := ⟨hlog.ne_nil hne, _, List.prefix_refl _, hlog⟩
  have hkeep : ∀ {owner : String} {old : NoteLog}, Abridges world.history owner old →
      Abridges history owner old := by
    intro owner old hold
    rcases hgrown with rfl | ⟨entry, held, _, rfl, _⟩
    · exact hold
    · exact hold.append_history entry held
  have hothers : ∀ {owner : String}, owner ≠ device →
      writtenBy history owner = writtenBy world.history owner := by
    intro owner hother
    rcases hgrown with rfl | ⟨entry, held, hentry, rfl, _⟩
    · rfl
    · rw [writtenBy_snoc, if_neg fun heq => hother (heq.symm.trans hentry)]
  constructor
  · intro holder
    simp only [NoteWorld.writeOwn, Function.update_apply]
    split
    · exact Directory.nodup_writeNoteLog (hfiled.names device)
    · exact hfiled.names holder
  · intro owner snapshot hsnapshot
    simp only [NoteWorld.writeOwn, Function.update_apply] at hsnapshot
    split at hsnapshot
    · next heq =>
        subst heq
        rcases List.mem_append.mp hsnapshot with hold | hlast
        · exact hkeep (hfiled.snapshots owner snapshot hold)
        · rw [ownNoteLog_writeNoteLog, List.mem_singleton] at hlast
          exact hlast ▸ hnew
    · exact hkeep (hfiled.snapshots owner snapshot hsnapshot)
  · intro holder file hfile
    simp only [NoteWorld.writeOwn, Function.update_apply] at hfile
    split at hfile
    · rcases Directory.eq_or_mem_of_mem_put hfile with rfl | ⟨hold, _⟩
      · exact hnew
      · exact hkeep (hfiled.files device file hold)
    · exact hkeep (hfiled.files holder file hfile)
  · intro holder
    simp only [NoteWorld.writeOwn, Function.update_apply]
    split
    · next heq =>
        subst heq
        rw [ownNoteLog_writeNoteLog]
        exact hlog
    · next hother =>
        rw [hothers hother]
        exact hfiled.own holder
  · intro entry hentry key hkey
    rcases hgrown with rfl | ⟨made, held, _, rfl, hnamed⟩
    · exact hfiled.named entry hentry key hkey
    · rcases recorded_snoc.mp hentry with hold | rfl
      · exact hfiled.named entry hold key hkey
      · exact hnamed key hkey

/-- A folder that lists abridgements under their owners' names, and the own log as it was,
keeps a world filed. -/
theorem NoteWorld.Filed.updateDir (hfiled : world.Filed) {dir : NoteDir}
    (hnames : (dir.map Prod.fst).Nodup)
    (hfiles : ∀ file ∈ dir, Abridges world.history file.1 file.2)
    (hown : ownNoteLog dir device = ownNoteLog (world.dirs device) device) :
    { world with dirs := Function.update world.dirs device dir : NoteWorld }.Filed where
  names := fun holder => by
    simp only [Function.update_apply]
    split
    · exact hnames
    · exact hfiled.names holder
  snapshots := hfiled.snapshots
  files := fun holder file hfile => by
    simp only [Function.update_apply] at hfile
    split at hfile
    · exact hfiles file hfile
    · exact hfiled.files holder file hfile
  own := fun holder => by
    simp only [Function.update_apply]
    split
    · next heq =>
        subst heq
        rw [hown]
        exact hfiled.own holder
    · exact hfiled.own holder
  named := hfiled.named

/-- A new entry names the devices of the heads and its own. -/
theorem NoteWorld.Filed.named_append (hfiled : world.Filed) (hsound : world.Sound)
    {entry : NoteLogEntry} (hvv : entry.vv = (world.joined device).increment device) {key : String}
    (hkey : key ∈ entry.vv) : 0 < count entry.vv key := by
  rw [hvv, count_increment]
  split
  · exact Nat.succ_pos _
  · next hother =>
      rw [hvv, increment, Std.ExtTreeMap.mem_insert, NoteWorld.joined, mem_mergedVv] at hkey
      rcases hkey with heq | ⟨head, hhead, hmem⟩
      · exact absurd (Std.LawfulEqCmp.eq_of_compare heq) hother
      · exact Nat.lt_of_lt_of_le
          (hfiled.named head (hsound.held_recorded (heads_held hhead)) key hmem)
          (le_count_mergedVv hhead key)

theorem noteStep_filed {step : NoteStep} (hsound : world.Sound) (hfiled : world.Filed)
    (hstep : noteStep world step = some next) : next.Filed := by
  cases step with
  | append device timestamp op =>
      obtain ⟨⟨entry, dir⟩, happend, rfl⟩ := Option.map_eq_some_iff.mp hstep
      obtain ⟨hdevice, hvv, log, rfl, hlog⟩ := appendNoteOp_cases happend
      have hwritten :
          writtenBy (world.history ++ [(entry, heldEntries (world.dirs device))]) device =
            writtenBy world.history device ++ [entry] := by
        rw [writtenBy_snoc, if_pos hdevice]
      have hsame : SameForMerge (ownNoteLog (world.dirs device) device ++ [entry])
          (writtenBy (world.history ++ [(entry, heldEntries (world.dirs device))]) device) := by
        rw [hwritten]
        exact (hfiled.own device).append entry
      have hne :
          writtenBy (world.history ++ [(entry, heldEntries (world.dirs device))]) device ≠ [] := by
        rw [hwritten]
        exact List.append_ne_nil_of_right_ne_nil _ (List.cons_ne_nil _ _)
      refine hfiled.writeOwn (Or.inr ⟨entry, _, hdevice, rfl,
        fun key hkey => hfiled.named_append hsound hvv hkey⟩) hne ?_
      rcases hlog with rfl | rfl
      · exact hsame
      · exact (compactOwnLog_same (hsound.ownerLog_append hdevice).own).trans hsame
  | compact device =>
      simp only [noteStep, Option.ite_none_right_eq_some, Option.some.injEq] at hstep
      obtain ⟨hexists, rfl⟩ := hstep
      have hmem := ownNoteLog_mem (Directory.holds_iff.mp hexists)
      have howner := hsound.files device _ hmem
      have hne : writtenBy world.history device ≠ [] := by
        obtain ⟨hlog, -⟩ := hfiled.files device _ hmem
        intro hnil
        have hhead := (hfiled.own device).head
        rw [hnil, List.getLast?_nil, List.getLast?_eq_none_iff] at hhead
        exact hlog hhead
      exact hfiled.writeOwn (Or.inl rfl) hne
        ((compactOwnLog_same howner.own).trans (hfiled.own device))
  | replicate source target snapshot =>
      simp only [noteStep, Option.ite_none_right_eq_some, Option.some.injEq] at hstep
      obtain ⟨⟨hne, hsnapshot⟩, rfl⟩ := hstep
      refine hfiled.updateDir (Directory.nodup_writeNoteLog (hfiled.names target)) ?_ ?_
      · intro file hfile
        rcases Directory.eq_or_mem_of_mem_put hfile with rfl | ⟨hold, _⟩
        · exact hfiled.snapshots source snapshot hsnapshot
        · exact hfiled.files target file hold
      · rw [ownNoteLog, ownNoteLog, writeNoteLog, Directory.file?_put_of_ne hne]
  | relist device dir =>
      simp only [noteStep, Option.ite_none_right_eq_some, Option.some.injEq] at hstep
      obtain ⟨hperm, rfl⟩ := hstep
      refine hfiled.updateDir ((hperm.map Prod.fst).nodup_iff.mpr (hfiled.names device)) ?_ ?_
      · exact fun file hfile => hfiled.files device file (hperm.mem_iff.mp hfile)
      · rw [ownNoteLog, ownNoteLog, Directory.file?_perm hperm (hfiled.names device)]

theorem noteRun_filed {steps : List NoteStep}
    (hrun : runAll noteStep NoteWorld.initial steps = some world) :
    world.Sound ∧ world.Filed := by
  refine @runAll_invariant _ _ noteStep (fun world => world.Sound ∧ world.Filed) ?_ _ _ _
    ⟨NoteWorld.initial_sound, NoteWorld.initial_filed⟩ hrun
  rintro world step next ⟨hsound, hfiled⟩ hstep
  exact ⟨noteStep_sound hsound hstep, noteStep_filed hsound hfiled hstep⟩

end Step

/-- The merge but for the note itself. -/
def Merged.withoutNote (merged : Merged) : Merged :=
  { merged with note := none }

section Vector

variable {world : NoteWorld} {a b device : String}

theorem NoteWorld.Sound.recorded_of_knows (hsound : world.Sound) {entry : NoteLogEntry}
    (hknows : world.Knows device entry) : Recorded world.history entry := by
  obtain ⟨held, hheld, rfl | hpast⟩ := hknows
  · exact hsound.held_recorded hheld
  · exact hsound.exact.past_recorded hpast

/-- A device counts what it knows. -/
theorem NoteWorld.Sound.count_known_le (hsound : world.Sound) {entry : NoteLogEntry}
    (hknows : world.Knows device entry) (key : String) :
    count entry.vv key ≤ count (world.joined device) key := by
  obtain ⟨head, hhead, rfl | hpast⟩ := hsound.exists_head_of_knows hknows
  · exact le_count_mergedVv hhead key
  · exact Nat.le_trans (hsound.exact.past_count_le hpast key) (le_count_mergedVv hhead key)

theorem NoteWorld.Sound.knows_iff (hsound : world.Sound) {entry : NoteLogEntry} :
    world.Knows device entry ↔ Recorded world.history entry ∧
      count entry.vv entry.deviceId ≤ count (world.joined device) entry.deviceId := by
  constructor
  · exact fun hknows => ⟨hsound.recorded_of_knows hknows, hsound.count_known_le hknows _⟩
  · rintro ⟨hrecorded, hle⟩
    have hpositive : 0 < count entry.vv entry.deviceId := hsound.exact.count_author_pos hrecorded
    obtain ⟨head, hhead, hcount⟩ := exists_head_of_lt_count_mergedVv
      (Nat.lt_of_lt_of_le (Nat.sub_lt hpositive Nat.one_pos) hle)
    have hbelow : count entry.vv entry.deviceId ≤ count head.vv entry.deviceId := by omega
    have hheld := heads_held hhead
    exact ⟨head, hheld,
      (hsound.exact.author_count_le_iff hrecorded (hsound.held_recorded hheld)).mp hbelow⟩

/-- What a device knows is named and counted by the vector of one that knows no less. -/
theorem NoteWorld.Filed.joined_le (hfiled : world.Filed) (hsound : world.Sound)
    (hknown : ∀ entry, world.Knows a entry → world.Knows b entry) (key : String) :
    count (world.joined a) key ≤ count (world.joined b) key ∧
      (key ∈ world.joined a → key ∈ world.joined b) := by
  have hheads : ∀ head ∈ heads (readNoteLogs (world.dirs a)),
      count head.vv key ≤ count (world.joined b) key := fun head hhead =>
    hsound.count_known_le (hknown head ⟨head, heads_held hhead, Or.inl rfl⟩) key
  refine ⟨count_mergedVv_le hheads, fun hkey => ?_⟩
  obtain ⟨head, hhead, hmem⟩ := mem_mergedVv.mp hkey
  have hpositive := hfiled.named head (hsound.held_recorded (heads_held hhead)) key hmem
  exact mem_iff_mem_toList.mpr
    ⟨_, mem_toList_of_count_pos (Nat.lt_of_lt_of_le hpositive (hheads head hhead))⟩

theorem NoteWorld.Filed.joined_eq_iff (hfiled : world.Filed) (hsound : world.Sound) :
    world.joined a = world.joined b ↔ ∀ entry, world.Knows a entry ↔ world.Knows b entry := by
  constructor
  · intro hjoined entry
    rw [hsound.knows_iff, hsound.knows_iff, hjoined]
  · intro hknown
    have hforward := hfiled.joined_le hsound fun entry => (hknown entry).mp
    have hback := hfiled.joined_le hsound fun entry => (hknown entry).mpr
    exact eq_of_counts (fun key => ⟨(hforward key).2, (hback key).2⟩)
      fun key => Nat.le_antisymm (hforward key).1 (hback key).1

theorem NoteWorld.Filed.recordedLogs (hfiled : world.Filed) (hsound : world.Sound)
    (device : String) : RecordedLogs world.history (readNoteLogs (world.dirs device)) :=
  recordedLogs_of_files (hfiled.names device) (hsound.files device)

theorem NoteWorld.Filed.frontier_perm (hfiled : world.Filed) (hsound : world.Sound)
    (hjoined : world.joined a = world.joined b) :
    (frontier (heads (readNoteLogs (world.dirs a)))).Perm
      (frontier (heads (readNoteLogs (world.dirs b)))) := by
  have hfirst := hfiled.recordedLogs hsound a
  have hsecond := hfiled.recordedLogs hsound b
  rw [List.perm_ext_iff_of_nodup hfirst.nodup_frontier hsecond.nodup_frontier]
  intro entry
  constructor
  · exact fun hentry => frontier_subset_of_mergedVv hsound.exact hfirst hsecond hjoined hentry
  · exact fun hentry =>
      frontier_subset_of_mergedVv hsound.exact hsecond hfirst hjoined.symm hentry

/-- Merges of one vector and one frontier differ in the note alone, and not in that unless
the contents under the winner differ. -/
theorem merge_of_frontier {logs others : List NoteLog} {winner : NoteLogEntry}
    (hvv : mergedVv (heads others) = mergedVv (heads logs))
    (hfrontier : (frontier (heads others)).Perm (frontier (heads logs)))
    (hwinner : maxBy NoteLogEntry.compareStamp (frontier (heads logs)) = some winner)
    (hother : maxBy NoteLogEntry.compareStamp (frontier (heads others)) = some winner) :
    (merge others).map Merged.withoutNote = (merge logs).map Merged.withoutNote ∧
      (resolvedNote others winner = resolvedNote logs winner → merge others = merge logs) := by
  have hsome : ∀ found, maxBy NoteLogEntry.compareStamp (frontier (heads found)) = some winner →
      (heads found).isEmpty = false := by
    intro found hfound
    have hmem := (mem_frontier_iff.mp (maxBy_mem _ hfound)).1
    exact Bool.eq_false_iff.mpr fun hempty => by
      rw [List.isEmpty_iff.mp hempty] at hmem
      exact absurd hmem List.not_mem_nil
  rw [merge, merge, hsome logs hwinner, hsome others hother, hwinner, hother, hvv,
    hfrontier.length_eq]
  refine ⟨rfl, fun hnote => ?_⟩
  simp only [Bool.false_eq_true, if_false, Option.map_some, hnote]

theorem NoteWorld.Filed.shown_of_joined (hfiled : world.Filed) (hsound : world.Sound)
    (hjoined : world.joined a = world.joined b) :
    (world.shown a).map Merged.withoutNote = (world.shown b).map Merged.withoutNote ∧
      ((∀ winner,
        maxBy NoteLogEntry.compareStamp (frontier (heads (readNoteLogs (world.dirs b)))) =
          some winner →
        resolvedNote (readNoteLogs (world.dirs a)) winner =
          resolvedNote (readNoteLogs (world.dirs b)) winner) → world.shown a = world.shown b) := by
  have hfirst := hfiled.recordedLogs hsound a
  have hsecond := hfiled.recordedLogs hsound b
  have hwinners := winner_of_mergedVv hsound.exact hfirst hsecond hjoined
  have hfrontier := hfiled.frontier_perm hsound hjoined
  cases hwinner :
      maxBy NoteLogEntry.compareStamp (frontier (heads (readNoteLogs (world.dirs b)))) with
  | some winner =>
      rw [hwinner] at hwinners
      obtain ⟨hall, hnote⟩ := merge_of_frontier hjoined hfrontier hwinner hwinners
      exact ⟨hall, fun hresolved => hnote (hresolved winner rfl)⟩
  | none =>
      have hnone : ∀ device, maxBy NoteLogEntry.compareStamp
          (frontier (heads (readNoteLogs (world.dirs device)))) = none →
            world.shown device = some ⟨none, ∅, ∅, "", false⟩ := by
        intro device hmax
        have hmerged := hsound.merge_isSome device
        rw [merge] at hmerged
        rw [NoteWorld.shown, merge]
        split
        · rfl
        · next hheads =>
            rw [if_neg hheads, hmax] at hmerged
            contradiction
      rw [hnone a (hwinners.trans hwinner), hnone b hwinner]
      exact ⟨rfl, fun _ => rfl⟩

/-- The joined vector of a device is its knowledge: in every run two devices have one
vector exactly if they know the same entries.  Then they show the same winner, conflict
flag and vectors, and, unless a tombstone wins, the same note. -/
theorem noteRun_same_vector {steps : List NoteStep}
    (hrun : runAll noteStep NoteWorld.initial steps = some world) (a b : String) :
    (world.joined a = world.joined b ↔ ∀ entry, world.Knows a entry ↔ world.Knows b entry) ∧
      (world.joined a = world.joined b →
        (world.shown a).map Merged.withoutNote = (world.shown b).map Merged.withoutNote ∧
          (¬TombstoneWins (readNoteLogs (world.dirs b)) → world.shown a = world.shown b)) := by
  obtain ⟨hsound, hfiled⟩ := noteRun_filed hrun
  refine ⟨hfiled.joined_eq_iff hsound, fun hjoined => ?_⟩
  obtain ⟨hall, hnote⟩ := hfiled.shown_of_joined hsound hjoined
  refine ⟨hall, fun hupsert => hnote fun winner hwinner => ?_⟩
  cases hop : winner.op with
  | upsert note => simp only [resolvedNote, hop]
  | tombstone deletedAt => exact absurd (tombstoneWins_of_winner hwinner hop) hupsert

end Vector

section Heads

variable {logs others : List NoteLog}

theorem heads_of_same (hsame : List.Forall₂ SameForMerge logs others) :
    heads logs = heads others := by
  induction hsame with
  | nil => rfl
  | cons hlog _ ih => simp only [heads, List.filterMap_cons, hlog.head] at ih ⊢; rw [ih]

theorem newest_of_same (hsame : List.Forall₂ SameForMerge logs others) :
    logs.filterMap newestUpsert = others.filterMap newestUpsert := by
  induction hsame with
  | nil => rfl
  | cons hlog _ ih => simp only [List.filterMap_cons, hlog.newest, ih]

/-- Logs that are the same for a merge, one by one, have the same latest upsert. -/
theorem latestUpsert_of_same (hsame : List.Forall₂ SameForMerge logs others) :
    latestUpsert logs = latestUpsert others := by
  rw [latestUpsert_eq, latestUpsert_eq, newest_of_same hsame]

/-- Where the latest upserts have one content the listing order does not matter to what a
tombstone leaves of it. -/
theorem latestUpsert_perm_of_agree (hperm : others.Perm logs) (hagree : LatestUpsertsAgree logs) :
    (latestUpsert others).map Note.keptByTombstone =
      (latestUpsert logs).map Note.keptByTombstone := by
  have hsome := latestUpsert_isSome_perm hperm
  cases hone : latestUpsert logs with
  | none =>
      rw [hone, Option.isSome_none, Option.isSome_eq_false_iff, Option.isNone_iff_eq_none] at hsome
      rw [hsome]
  | some one =>
      rw [hone] at hsome
      obtain ⟨other, hother⟩ := Option.isSome_iff_exists.mp hsome
      obtain ⟨first, hfirst, ts, hfirstNewest, hfirstLast⟩ := exists_log_of_latestUpsert hone
      obtain ⟨second, hsecond, later, hsecondNewest, hsecondLast⟩ :=
        exists_log_of_latestUpsert hother
      have hsecondMem := hperm.mem_iff.mp hsecond
      obtain rfl : ts = later := Int.le_antisymm
        (hsecondLast first (hperm.mem_iff.mpr hfirst) _ hfirstNewest)
        (hfirstLast second hsecondMem _ hsecondNewest)
      rw [hother, Option.map_some, Option.map_some,
        hagree second hsecondMem first hfirst ts other one hsecondNewest hfirstNewest hfirstLast]

end Heads

section Converged

variable {world : NoteWorld} {a b : String}

/-- The copies of each log at two devices end in one entry. -/
def NoteWorld.SameHeads (world : NoteWorld) (a b : String) : Prop :=
  ∀ owner, (ownNoteLog (world.dirs a) owner).getLast? = (ownNoteLog (world.dirs b) owner).getLast?

/-- The listing at one device, with the copies of another. -/
def NoteWorld.relisted (world : NoteWorld) (a b : String) : NoteDir :=
  (world.dirs a).map fun file => (file.1, ownNoteLog (world.dirs b) file.1)

theorem NoteWorld.Filed.ownNoteLog_of_mem (hfiled : world.Filed) {device : String}
    {file : String × NoteLog} (hfile : file ∈ world.dirs device) :
    ownNoteLog (world.dirs device) file.1 = file.2 := by
  rw [ownNoteLog, Directory.file?_of_nodup (hfiled.names device) hfile]
  rfl

theorem NoteWorld.Filed.listed_iff (hfiled : world.Filed) {device owner : String} :
    (∃ log, (owner, log) ∈ world.dirs device) ↔
      (ownNoteLog (world.dirs device) owner).getLast? ≠ none := by
  constructor
  · rintro ⟨log, hfile⟩ hnone
    rw [hfiled.ownNoteLog_of_mem hfile, List.getLast?_eq_none_iff] at hnone
    exact (hfiled.files device _ hfile).1 hnone
  · intro hsome
    by_contra hmissing
    rw [ownNoteLog_of_missing fun log hlog => hmissing ⟨log, hlog⟩] at hsome
    exact hsome rfl

theorem NoteWorld.Filed.relisted_perm (hfiled : world.Filed) (hheads : world.SameHeads a b) :
    (world.relisted a b).Perm (world.dirs b) := by
  have hnames : (world.relisted a b).map Prod.fst = (world.dirs a).map Prod.fst := by
    rw [NoteWorld.relisted, List.map_map]
    rfl
  rw [List.perm_ext_iff_of_nodup (.of_map _ (hnames ▸ hfiled.names a)) (.of_map _ (hfiled.names b))]
  rintro ⟨owner, log⟩
  rw [NoteWorld.relisted, List.mem_map]
  constructor
  · rintro ⟨⟨found, old⟩, hold, heq⟩
    obtain ⟨hfound, rfl⟩ := Prod.mk.inj heq
    have hlisted := hfiled.listed_iff.mp ⟨old, hold⟩
    rw [hheads found] at hlisted
    exact hfound ▸ ownNoteLog_mem (hfiled.listed_iff.mpr hlisted)
  · intro hlog
    have hlisted := hfiled.listed_iff.mp ⟨log, hlog⟩
    rw [← hheads owner] at hlisted
    obtain ⟨old, hold⟩ := hfiled.listed_iff.mpr hlisted
    exact ⟨(owner, old), hold, by rw [hfiled.ownNoteLog_of_mem hlog]⟩

theorem NoteWorld.Filed.relisted_same (hfiled : world.Filed) (hsound : world.Sound)
    (hheads : world.SameHeads a b) :
    List.Forall₂ SameForMerge (readNoteLogs (world.dirs a))
      (readNoteLogs (world.relisted a b)) := by
  rw [readNoteLogs, readNoteLogs, NoteWorld.relisted, List.map_map, List.forall₂_map_left_iff,
    List.forall₂_map_right_iff, List.forall₂_same]
  rintro ⟨owner, log⟩ hfile
  have hlisted := hfiled.listed_iff.mp ⟨log, hfile⟩
  rw [hheads owner] at hlisted
  have hother := ownNoteLog_mem (hfiled.listed_iff.mpr hlisted)
  have hhead := hheads owner
  rw [hfiled.ownNoteLog_of_mem hfile] at hhead
  exact (hfiled.files a _ hfile).same_of_head hsound.exact (hfiled.files b _ hother) hhead

/-- Devices whose copies of each log end in one entry show one merge, however the copies
were compacted and listed, in every run; unless a tombstone wins over upserts of one
latest instant that differ, where the content of the deleted note may differ. -/
theorem noteRun_converges {steps : List NoteStep}
    (hrun : runAll noteStep NoteWorld.initial steps = some world) (a b : String)
    (hheads : world.SameHeads a b) :
    (world.shown a).map Merged.withoutNote = (world.shown b).map Merged.withoutNote ∧
      ((TombstoneWins (readNoteLogs (world.dirs b)) →
        LatestUpsertsAgree (readNoteLogs (world.dirs b))) → world.shown a = world.shown b) := by
  obtain ⟨hsound, hfiled⟩ := noteRun_filed hrun
  have hsame := hfiled.relisted_same hsound hheads
  have hperm : (readNoteLogs (world.relisted a b)).Perm (readNoteLogs (world.dirs b)) :=
    (hfiled.relisted_perm hheads).map Prod.snd
  have hjoined : world.joined a = world.joined b := by
    rw [NoteWorld.joined, heads_of_same hsame]
    exact mergedVv_perm (heads_perm hperm)
  obtain ⟨hall, hnote⟩ := hfiled.shown_of_joined hsound hjoined
  refine ⟨hall, fun hagree => hnote fun winner hwinner => ?_⟩
  cases hop : winner.op with
  | upsert note => simp only [resolvedNote, hop]
  | tombstone deletedAt =>
      have hkept := latestUpsert_perm_of_agree hperm
        (hagree (tombstoneWins_of_winner hwinner hop))
      rw [← latestUpsert_of_same hsame] at hkept
      simp only [resolvedNote, hop]
      cases hone : latestUpsert (readNoteLogs (world.dirs a)) with
      | none =>
          rw [hone, Option.map_none, eq_comm, Option.map_eq_none_iff] at hkept
          rw [hkept]
      | some one =>
          rw [hone, Option.map_some, eq_comm, Option.map_eq_some_iff] at hkept
          obtain ⟨other, hother, hcontent⟩ := hkept
          rw [hother]
          exact congrArg some ((keptByTombstone_eq_iff deletedAt).mp hcontent.symm)

end Converged

theorem NoteWorld.sameHeads_of_listed {world : NoteWorld} {a b : String}
    (hlisted : ∀ file ∈ world.dirs a ++ world.dirs b,
      (ownNoteLog (world.dirs a) file.1).getLast? = (ownNoteLog (world.dirs b) file.1).getLast?) :
    world.SameHeads a b := by
  intro owner
  by_cases hfile : ∃ log, (owner, log) ∈ world.dirs a ++ world.dirs b
  · obtain ⟨log, hlog⟩ := hfile
    exact hlisted _ hlog
  · rw [ownNoteLog_of_missing fun log hlog => hfile ⟨log, List.mem_append_left _ hlog⟩,
      ownNoteLog_of_missing fun log hlog => hfile ⟨log, List.mem_append_right _ hlog⟩]

namespace NoteAgreementWitness

def note : Note :=
  { id := 7, title := "", body := "a", notebookId := Uuid.nil, isTodo := false
    todoDue := none, todoCompleted := none, createdAt := 1, updatedAt := 5
    deletedAt := none, «alias» := none, bookmarks := [], links := []
    vv := ∅, lastWriter := "", isPinned := false, isStarred := false, sortKey := 0 }

def first : NoteLogEntry :=
  ⟨(∅ : VersionVector).increment "A", 4, "A", .upsert { note with body := "" }⟩

def second : NoteLogEntry :=
  ⟨((∅ : VersionVector).increment "A").increment "A", 5, "A", .upsert note⟩

def third : NoteLogEntry :=
  ⟨((∅ : VersionVector).increment "A").increment "B", 6, "B", .tombstone 6⟩

/-- One device writes twice, and another deletes the note having seen the first version
only.  The one compacts its log behind a copy of it, and lists the two files the other way
round. -/
def steps : List NoteStep :=
  [.append "A" 4 (.upsert { note with body := "" }), .replicate "A" "B" [first],
    .append "A" 5 (.upsert note), .replicate "A" "B" [first, second],
    .replicate "A" "B" [first], .append "B" 6 (.tombstone 6), .compact "A",
    .replicate "A" "B" [first, second], .replicate "B" "A" [third],
    .relist "A" [("B", [third]), ("A", [second])]]

theorem noteRun_converges_steps :
    ∃ world, runAll noteStep NoteWorld.initial steps = some world ∧ world.SameHeads "A" "B" ∧
      (world.shown "A").map Merged.withoutNote = (world.shown "B").map Merged.withoutNote ∧
      ((TombstoneWins (readNoteLogs (world.dirs "B")) →
        LatestUpsertsAgree (readNoteLogs (world.dirs "B"))) →
          world.shown "A" = world.shown "B") := by
  have hrun : (runAll noteStep NoteWorld.initial steps).any (fun world =>
      decide (∀ file ∈ world.dirs "A" ++ world.dirs "B",
        (ownNoteLog (world.dirs "A") file.1).getLast? =
          (ownNoteLog (world.dirs "B") file.1).getLast?)) = true := by decide
  obtain ⟨world, hworld, hlisted⟩ := (Option.any_eq_true _ _).mp hrun
  have hheads : world.SameHeads "A" "B" :=
    NoteWorld.sameHeads_of_listed (of_decide_eq_true hlisted)
  exact ⟨world, hworld, hheads, noteRun_converges hworld "A" "B" hheads⟩

theorem noteRun_same_vector_steps :
    ∃ world, runAll noteStep NoteWorld.initial steps = some world ∧
      (world.joined "A" = world.joined "B" ↔
        ∀ entry, world.Knows "A" entry ↔ world.Knows "B" entry) ∧
      (world.joined "A" = world.joined "B" →
        (world.shown "A").map Merged.withoutNote = (world.shown "B").map Merged.withoutNote ∧
          (¬TombstoneWins (readNoteLogs (world.dirs "B")) →
            world.shown "A" = world.shown "B")) := by
  have hrun : (runAll noteStep NoteWorld.initial steps).isSome = true := by decide
  obtain ⟨world, hworld⟩ := Option.isSome_iff_exists.mp hrun
  exact ⟨world, hworld, noteRun_same_vector hworld "A" "B"⟩

end NoteAgreementWitness

end Keeplin
