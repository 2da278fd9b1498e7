/-
A device may replace its own log of a note by the compacted one at any moment.
The log that was never compacted is kept beside it as a ghost; a merge cannot
tell the two apart, whatever the other devices' logs are.
-/
import Keeplin.NoteLog

namespace Keeplin

/-- What a device does with its own log of one note. -/
inductive OwnLogStep where
  | append (vv : VersionVector) (timestamp : DateTime) (op : NoteOp)
  | compact

/-- One step on the log, with `compaction` for what a compaction leaves. -/
def ownLogStep (device : String) (compaction : NoteLog → NoteLog) (log : NoteLog) :
    OwnLogStep → NoteLog
  | .append vv timestamp op => log ++ [⟨vv, timestamp, device, op⟩]
  | .compact => compaction log

/-- The log the device holds. -/
def compactedLog (device : String) (steps : List OwnLogStep) : NoteLog :=
  steps.foldl (ownLogStep device compactOwnLog) []

/-- The log with every compaction left out. -/
def fullLog (device : String) (steps : List OwnLogStep) : NoteLog :=
  steps.foldl (ownLogStep device id) []

/-- The latest upsert of one log, the last one among equal timestamps. -/
def newestUpsert (log : NoteLog) : Option (DateTime × Note) :=
  maxBy (compareOn Prod.fst) (log.filterMap NoteLogEntry.upsert?)

/-- All that a merge reads of one log: its head and its latest upsert. -/
structure SameForMerge (log other : NoteLog) : Prop where
  head : log.getLast? = other.getLast?
  newest : newestUpsert log = newestUpsert other

theorem SameForMerge.trans {first second third : NoteLog}
    (hfirst : SameForMerge first second) (hsecond : SameForMerge second third) :
    SameForMerge first third :=
  ⟨hfirst.head.trans hsecond.head, hfirst.newest.trans hsecond.newest⟩

theorem SameForMerge.append {log other : NoteLog} (hsame : SameForMerge log other)
    (entry : NoteLogEntry) : SameForMerge (log ++ [entry]) (other ++ [entry]) := by
  constructor
  · simp
  · unfold newestUpsert
    rw [List.filterMap_append, List.filterMap_append, maxBy_append, maxBy_append]
    have hnewest := hsame.newest
    unfold newestUpsert at hnewest
    rw [hnewest]

/-- Logs that are the same for a merge can replace each other among others. -/
theorem SameForMerge.merge_eq {log other : NoteLog} (hsame : SameForMerge log other)
    (before after : List NoteLog) :
    merge (before ++ [log] ++ after) = merge (before ++ [other] ++ after) := by
  apply merge_congr
  · unfold heads
    simp only [List.filterMap_append, List.filterMap_cons, hsame.head]
  · unfold latestUpsert
    simp only [List.flatten_append, List.filterMap_append, List.flatten_cons,
      List.flatten_nil, List.append_nil]
    rw [maxBy_replace _ hsame.newest]

theorem upsert?_isSome (entry : NoteLogEntry) :
    entry.upsert?.isSome = entry.isUpsert := by
  unfold NoteLogEntry.upsert? NoteLogEntry.isUpsert
  cases entry.op <;> rfl

/-- Entries of one device are ordered by their timestamps alone. -/
theorem compareStamp_of_same_device {first second : NoteLogEntry}
    (hdevice : first.deviceId = second.deviceId) :
    NoteLogEntry.compareStamp first second =
      compare first.timestamp second.timestamp := by
  simp [NoteLogEntry.compareStamp, compareLex, compareOn, hdevice]

theorem upsert?_timestamp {entry : NoteLogEntry} {found : DateTime × Note}
    (hread : entry.upsert? = some found) : found.1 = entry.timestamp := by
  unfold NoteLogEntry.upsert? at hread
  split at hread
  · rw [Option.some.injEq] at hread
    rw [← hread]
  · contradiction

/-- The choice `compactOwnLog` makes by position, read as an entry of the log. -/
theorem newestUpsert_eq_of_device {log : NoteLog} {device : String}
    (hdevice : ∀ entry ∈ log, entry.deviceId = device) :
    newestUpsert log =
      (maxBy (fun a b => NoteLogEntry.compareStamp a.1 b.1)
        (log.zipIdx.filter fun entry => entry.1.isUpsert)).bind
          fun entry => entry.1.upsert? := by
  have hread : log.filterMap NoteLogEntry.upsert? =
      log.zipIdx.filterMap fun entry => entry.1.upsert? := by
    conv_lhs => rw [← List.zipIdx_map_fst 0 log]
    rw [List.filterMap_map]
    rfl
  unfold newestUpsert
  rw [hread, maxBy_filterMap (fun a b => NoteLogEntry.compareStamp a.1 b.1)]
  · simp only [upsert?_isSome]
  · intro first hfirst second hsecond left right hleft hright
    have hfirstDevice := hdevice first.1 (List.fst_mem_of_mem_zipIdx hfirst)
    have hsecondDevice := hdevice second.1 (List.fst_mem_of_mem_zipIdx hsecond)
    have hleftStamp := upsert?_timestamp hleft
    have hrightStamp := upsert?_timestamp hright
    rw [compareStamp_of_same_device (hfirstDevice.trans hsecondDevice.symm)]
    rw [compareOn, hleftStamp, hrightStamp]

theorem newestUpsert_singleton (entry : NoteLogEntry) :
    newestUpsert [entry] = entry.upsert? := by
  unfold newestUpsert
  cases hread : entry.upsert? with
  | none => simp [hread]
  | some found => simp [hread]

/-- The latest upsert and the head of a log keep its latest upsert. -/
theorem newestUpsert_pair {log : NoteLog} {newest head : NoteLogEntry}
    (hhead : log.getLast? = some head) (hnewest : newestUpsert log = newest.upsert?)
    (hupsert : newest.isUpsert = true) :
    newestUpsert [newest, head] = newest.upsert? := by
  rw [← upsert?_isSome] at hupsert
  obtain ⟨found, hfound⟩ := Option.isSome_iff_exists.mp hupsert
  obtain ⟨front, rfl⟩ := List.getLast?_eq_some_iff.mp hhead
  unfold newestUpsert at hnewest ⊢
  cases hread : head.upsert? with
  | none => simp [hfound, hread]
  | some last =>
      rw [List.filterMap_append] at hnewest
      simp only [List.filterMap_cons, hread, List.filterMap_nil, hfound] at hnewest ⊢
      have hlater := later_last_of_maxBy (compareOn Prod.fst) hnewest
      change some (later (compareOn Prod.fst) found last) = some found
      rw [hlater]

/-- Compacting its own log is invisible to a merge. -/
theorem compactOwnLog_same {log : NoteLog} {device : String}
    (hdevice : ∀ entry ∈ log, entry.deviceId = device) :
    SameForMerge (compactOwnLog log) log := by
  have hnewest := newestUpsert_eq_of_device hdevice
  unfold compactOwnLog
  split
  · exact ⟨rfl, rfl⟩
  next hlong =>
  cases hhead : log.getLast? with
  | none => exact ⟨rfl, rfl⟩
  | some head =>
      have hmem : head ∈ log := List.mem_of_getLast? hhead
      simp only
      cases hmax : maxBy (fun a b => NoteLogEntry.compareStamp a.1 b.1)
          (log.zipIdx.filter fun entry => entry.1.isUpsert) with
      | none =>
          rw [hmax, Option.bind_none] at hnewest
          refine ⟨hhead.symm, ?_⟩
          rw [newestUpsert_singleton, hnewest]
          have hempty := (maxBy_eq_none_iff _).mp hnewest
          exact List.filterMap_eq_nil_iff.mp hempty head hmem
      | some entry =>
          obtain ⟨newest, position⟩ := entry
          rw [hmax, Option.bind_some] at hnewest
          have hplace := List.mem_filter.mp (maxBy_mem _ hmax)
          simp only
          split
          · next hlast =>
              have hfound := List.mk_mem_zipIdx_iff_getElem?.mp hplace.1
              rw [hlast, ← List.getLast?_eq_getElem?, hhead, Option.some.injEq] at hfound
              refine ⟨hhead.symm, ?_⟩
              rw [newestUpsert_singleton, hnewest, hfound]
          · refine ⟨hhead.symm, ?_⟩
            rw [hnewest, newestUpsert_pair hhead hnewest hplace.2]

/-- Compaction leaves the head and perhaps an entry before it. -/
theorem compactOwnLog_sublist (log : NoteLog) : (compactOwnLog log).Sublist log := by
  unfold compactOwnLog
  split
  · exact List.Sublist.refl log
  cases hhead : log.getLast? with
  | none => exact List.Sublist.refl log
  | some head =>
      obtain ⟨front, rfl⟩ := List.getLast?_eq_some_iff.mp hhead
      simp only
      split
      · exact List.sublist_append_right front [head]
      · next newest position hmax =>
          split
          · exact List.sublist_append_right front [head]
          · next hearlier =>
              -- The newest upsert stands before the head.
              have hplace := List.mk_mem_zipIdx_iff_getElem?.mp
                (List.mem_filter.mp (maxBy_mem _ hmax)).1
              have hbound : position < (front ++ [head]).length :=
                (List.getElem?_eq_some_iff.mp hplace).1
              rw [List.length_append, List.length_singleton] at hbound hearlier
              rw [List.getElem?_append_left (by omega)] at hplace
              have hmem : newest ∈ front := List.mem_of_getElem? hplace
              exact (List.singleton_sublist.mpr hmem).append (List.Sublist.refl [head])

theorem compactOwnLog_mem {log : NoteLog} {entry : NoteLogEntry}
    (hentry : entry ∈ compactOwnLog log) : entry ∈ log :=
  (compactOwnLog_sublist log).subset hentry

/-- The log holds entries of its device only and is the same for a merge as
the log that was never compacted. -/
structure FollowsFull (device : String) (log full : NoteLog) : Prop where
  own : ∀ entry ∈ log, entry.deviceId = device
  same : SameForMerge log full

theorem ownLogStep_followsFull {device : String} {log full : NoteLog}
    (hfollows : FollowsFull device log full) (step : OwnLogStep) :
    FollowsFull device (ownLogStep device compactOwnLog log step)
      (ownLogStep device id full step) := by
  cases step with
  | append vv timestamp op =>
      refine ⟨?_, hfollows.same.append _⟩
      intro entry hentry
      rcases List.mem_append.mp hentry with hold | hnew
      · exact hfollows.own entry hold
      · rw [List.mem_singleton.mp hnew]
  | compact =>
      exact ⟨fun entry hentry => hfollows.own entry (compactOwnLog_mem hentry),
        (compactOwnLog_same hfollows.own).trans hfollows.same⟩

theorem compactedLog_followsFull (device : String) (steps : List OwnLogStep) :
    FollowsFull device (compactedLog device steps) (fullLog device steps) := by
  induction steps using List.reverseRecOn with
  | nil => exact ⟨fun entry hentry => absurd hentry List.not_mem_nil, rfl, rfl⟩
  | append_singleton front step ih =>
      unfold compactedLog fullLog at ih ⊢
      rw [List.foldl_append, List.foldl_append]
      exact ownLogStep_followsFull ih step

/-- Among any other logs, the compacted log merges to what the log that was
never compacted merges to. -/
theorem merge_compactedLog (device : String) (steps : List OwnLogStep)
    (before after : List NoteLog) :
    merge (before ++ [compactedLog device steps] ++ after) =
      merge (before ++ [fullLog device steps] ++ after) :=
  (compactedLog_followsFull device steps).same.merge_eq before after

end Keeplin
