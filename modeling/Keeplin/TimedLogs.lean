/-
The log of a note that only this device writes, with a clock that goes on.  It is short,
its entries are in the order of time, and its history is read off its end.
-/
import Keeplin.HistorySelection
import Keeplin.NoteFreshness

namespace Keeplin

/-- What an append leaves of the log: with the entry, and compacted if that makes it long. -/
def appendedLog (log : NoteLog) (entry : NoteLogEntry) : NoteLog :=
  if NOTE_LOG_COMPACT_THRESHOLD < (log ++ [entry]).length then compactOwnLog (log ++ [entry])
  else log ++ [entry]

/-- Later entries have later timestamps. -/
def Timed (log : NoteLog) : Prop :=
  log.Pairwise fun earlier later => earlier.timestamp < later.timestamp

section Log

variable {device : String} {log : NoteLog} {entry head : NoteLogEntry}

theorem latestUpsert_singleton (log : NoteLog) :
    latestUpsert [log] = (newestUpsert log).map Prod.snd := by
  rw [latestUpsert, List.flatten_singleton, newestUpsert]

theorem newestUpsert_concat (log : NoteLog) (entry : NoteLogEntry)
    (hlater : ∀ old ∈ log, old.timestamp < entry.timestamp) :
    newestUpsert (log ++ [entry]) = entry.upsert?.or (newestUpsert log) := by
  rw [newestUpsert, List.filterMap_append]
  cases hread : entry.upsert? with
  | none => simp [hread, newestUpsert]
  | some found =>
      simp only [List.filterMap_cons, hread, List.filterMap_nil, maxBy_concat]
      cases hbest : maxBy (compareOn Prod.fst) (log.filterMap NoteLogEntry.upsert?) with
      | none => rfl
      | some best =>
          obtain ⟨old, hold, holdRead⟩ := List.mem_filterMap.mp (maxBy_mem _ hbest)
          have hlt : best.1 < found.1 := by
            rw [upsert?_timestamp holdRead, upsert?_timestamp hread]
            exact hlater old hold
          have hcmp : compareOn Prod.fst best found = .lt := compare_lt_iff_lt.mpr hlt
          simp [later, hcmp]

/-- The entry of an upsert is all that compaction leaves before it. -/
theorem compactOwnLog_concat_upsert (hupsert : entry.isUpsert = true)
    (hdevice : ∀ old ∈ log, old.deviceId = entry.deviceId)
    (hlater : ∀ old ∈ log, old.timestamp < entry.timestamp) :
    compactOwnLog (log ++ [entry]) = [entry] := by
  unfold compactOwnLog
  split
  · next hshort =>
      have hempty : log = [] := by
        rw [List.length_append, List.length_singleton] at hshort
        exact List.length_eq_zero_iff.mp (by omega)
      rw [hempty, List.nil_append]
  have hmax : maxBy (fun a b => NoteLogEntry.compareStamp a.1 b.1)
      ((log ++ [entry]).zipIdx.filter fun entry => entry.1.isUpsert) =
        some (entry, log.length) := by
    rw [List.zipIdx_append, List.filter_append]
    simp only [List.zipIdx_cons, List.zipIdx_nil, List.filter_cons, hupsert, if_true,
      List.filter_nil, maxBy_concat, Nat.zero_add]
    cases hbest : maxBy (fun a b => NoteLogEntry.compareStamp a.1 b.1)
        (log.zipIdx.filter fun entry => entry.1.isUpsert) with
    | none => rfl
    | some best =>
        have hmem := List.fst_mem_of_mem_zipIdx (List.mem_filter.mp (maxBy_mem _ hbest)).1
        have hcmp : NoteLogEntry.compareStamp best.1 entry = .lt := by
          rw [compareStamp_of_same_device (hdevice best.1 hmem)]
          exact compare_lt_iff_lt.mpr (hlater best.1 hmem)
        simp [later, hcmp]
  rw [List.getLast?_concat, hmax]
  simp

/-- Before a tombstone compaction leaves the newest upsert. -/
theorem compactOwnLog_concat_tombstone (htombstone : entry.isUpsert = false)
    (hdevice : ∀ old ∈ log, old.deviceId = device) {found : DateTime × Note}
    (hfound : newestUpsert log = some found) :
    ∃ newest ∈ log, newest.upsert? = some found ∧
      compactOwnLog (log ++ [entry]) = [newest, entry] := by
  rw [newestUpsert_eq_of_device hdevice] at hfound
  obtain ⟨⟨newest, position⟩, hmax, hread⟩ := Option.bind_eq_some_iff.mp hfound
  have hplace := List.mk_mem_zipIdx_iff_getElem?.mp (List.mem_filter.mp (maxBy_mem _ hmax)).1
  obtain ⟨hbound, -⟩ := List.getElem?_eq_some_iff.mp hplace
  have hlong : ¬ (log ++ [entry]).length ≤ 1 := by
    rw [List.length_append, List.length_singleton]
    omega
  have hbefore : position ≠ (log ++ [entry]).length - 1 := by
    rw [List.length_append, List.length_singleton]
    omega
  have hfilter : ((log ++ [entry]).zipIdx.filter fun entry => entry.1.isUpsert) =
      log.zipIdx.filter fun entry => entry.1.isUpsert := by
    rw [List.zipIdx_append, List.filter_append]
    simp [htombstone]
  refine ⟨newest, List.mem_of_getElem? hplace, hread, ?_⟩
  rw [compactOwnLog, if_neg hlong, List.getLast?_concat, hfilter, hmax]
  simp only [if_neg hbefore]

end Log

/-- The log of the device that alone writes a note, up to an instant. -/
structure OwnHistory (device : String) (latest : DateTime) (log : NoteLog) : Prop where
  own : ∀ entry ∈ log, entry.deviceId = device
  timed : Timed log
  past : ∀ entry ∈ log, entry.timestamp ≤ latest
  short : log.length ≤ NOTE_LOG_COMPACT_THRESHOLD
  content : (newestUpsert log).isSome

/-- The folder of a note that only this device writes. -/
def OwnDir (device : String) (latest : DateTime) (dir : NoteDir) : Prop :=
  dir = [] ∨ ∃ log, dir = [(device, log)] ∧ OwnHistory device latest log

section History

variable {device : String} {latest now : DateTime} {log : NoteLog} {entry : NoteLogEntry}

theorem Timed.eq_of_timestamp (htimed : Timed log) {first second : NoteLogEntry}
    (hfirst : first ∈ log) (hsecond : second ∈ log)
    (hsame : first.timestamp = second.timestamp) : first = second := by
  have hnodup : (log.map NoteLogEntry.timestamp).Nodup :=
    List.pairwise_map.mpr (htimed.imp ne_of_lt)
  exact List.inj_on_of_nodup_map hnodup hfirst hsecond hsame

theorem OwnHistory.mono (hown : OwnHistory device latest log) (hle : latest ≤ now) :
    OwnHistory device now log :=
  { hown with past := fun entry hentry => (hown.past entry hentry).trans hle }

/-- The first entry of a log, an upsert. -/
theorem ownHistory_singleton (hdevice : entry.deviceId = device) (hupsert : entry.isUpsert = true) :
    OwnHistory device entry.timestamp (appendedLog [] entry) where
  own := by
    intro old hold
    rw [List.mem_singleton.mp hold, hdevice]
  timed := List.pairwise_singleton _ _
  past := by
    intro old hold
    rw [List.mem_singleton.mp hold]
  short := (by decide : 1 ≤ NOTE_LOG_COMPACT_THRESHOLD)
  content := by
    rw [show appendedLog [] entry = [entry] from rfl, newestUpsert_singleton, upsert?_isSome,
      hupsert]

theorem length_compactOwnLog_le (log : NoteLog) :
    (compactOwnLog log).length ≤ NOTE_LOG_COMPACT_THRESHOLD ∨ log.length ≤ 1 := by
  unfold compactOwnLog
  split
  · next hshort => exact .inr hshort
  left
  cases hhead : log.getLast? with
  | none =>
      rw [List.getLast?_eq_none_iff.mp hhead]
      exact Nat.zero_le _
  | some head =>
      simp only
      split
      · simp [NOTE_LOG_COMPACT_THRESHOLD]
      · split <;> simp [NOTE_LOG_COMPACT_THRESHOLD]

theorem OwnHistory.append (hown : OwnHistory device latest log) (hdevice : entry.deviceId = device)
    (hnow : latest < entry.timestamp) :
    OwnHistory device entry.timestamp (appendedLog log entry) := by
  have hlater : ∀ old ∈ log, old.timestamp < entry.timestamp := fun old hold =>
    lt_of_le_of_lt (hown.past old hold) hnow
  have hdevices : ∀ old ∈ log ++ [entry], old.deviceId = device := by
    intro old hold
    rcases List.mem_append.mp hold with hearlier | hlast
    · exact hown.own old hearlier
    · rw [List.mem_singleton.mp hlast, hdevice]
  have htimed : Timed (log ++ [entry]) := by
    refine List.pairwise_append.mpr ⟨hown.timed, List.pairwise_singleton _ _, ?_⟩
    intro earlier hearlier later hlast
    rw [List.mem_singleton.mp hlast]
    exact hlater earlier hearlier
  have hpast : ∀ old ∈ log ++ [entry], old.timestamp ≤ entry.timestamp := by
    intro old hold
    rcases List.mem_append.mp hold with hearlier | hlast
    · exact le_of_lt (hlater old hearlier)
    · rw [List.mem_singleton.mp hlast]
  have hcontent : (newestUpsert (log ++ [entry])).isSome := by
    rw [newestUpsert_concat log entry hlater]
    cases entry.upsert? with
    | none => exact hown.content
    | some found => rfl
  unfold appendedLog
  split
  · next hlong =>
      have hsublist := compactOwnLog_sublist (log ++ [entry])
      refine ⟨fun old hold => hdevices old (hsublist.subset hold),
        List.Pairwise.sublist hsublist htimed, fun old hold => hpast old (hsublist.subset hold),
        ?_, ?_⟩
      · rcases length_compactOwnLog_le (log ++ [entry]) with hshort | htiny
        · exact hshort
        · exact absurd (lt_of_lt_of_le hlong htiny) (by decide)
      · rw [(compactOwnLog_same hdevices).newest]
        exact hcontent
  · next hshort => exact ⟨hdevices, htimed, hpast, not_lt.mp hshort, hcontent⟩

/-- What stands before the entry an append adds: all of a log that is not full, nothing
under an upsert and the newest upsert under a tombstone. -/
theorem OwnHistory.appendedLog_eq (hown : OwnHistory device latest log)
    (hdevice : entry.deviceId = device) (hnow : latest < entry.timestamp) :
    ∃ front, appendedLog log entry = front ++ [entry] ∧ (∀ old ∈ front, old ∈ log) ∧
      if log.length < NOTE_LOG_COMPACT_THRESHOLD then front = log
      else if entry.isUpsert then front = []
      else ∃ newest ∈ log, newest.upsert? = newestUpsert log ∧ front = [newest] := by
  have hlater : ∀ old ∈ log, old.timestamp < entry.timestamp := fun old hold =>
    lt_of_le_of_lt (hown.past old hold) hnow
  by_cases hroom : log.length < NOTE_LOG_COMPACT_THRESHOLD
  · refine ⟨log, ?_, fun _ hold => hold, by rw [if_pos hroom]⟩
    rw [appendedLog, if_neg]
    rw [List.length_append, List.length_singleton]
    omega
  have hlong : NOTE_LOG_COMPACT_THRESHOLD < (log ++ [entry]).length := by
    rw [List.length_append, List.length_singleton]
    omega
  simp only [appendedLog, if_pos hlong, if_neg hroom]
  cases hupsert : entry.isUpsert with
  | true =>
      refine ⟨[], ?_, fun _ hold => absurd hold List.not_mem_nil, rfl⟩
      exact compactOwnLog_concat_upsert hupsert
        (fun old hold => (hown.own old hold).trans hdevice.symm) hlater
  | false =>
      obtain ⟨found, hfound⟩ := Option.isSome_iff_exists.mp hown.content
      obtain ⟨newest, hmem, hread, hcompact⟩ :=
        compactOwnLog_concat_tombstone hupsert hown.own hfound
      refine ⟨[newest], hcompact, fun _ hold => List.mem_singleton.mp hold ▸ hmem, ?_⟩
      exact ⟨newest, hmem, hread.trans hfound.symm, rfl⟩

theorem OwnHistory.newestUpsert_appendedLog (hown : OwnHistory device latest log)
    (hdevice : entry.deviceId = device) (hnow : latest < entry.timestamp) :
    newestUpsert (appendedLog log entry) = entry.upsert?.or (newestUpsert log) := by
  rw [← newestUpsert_concat log entry fun old hold =>
    lt_of_le_of_lt (hown.past old hold) hnow]
  unfold appendedLog
  split
  · refine (@compactOwnLog_same _ device ?_).newest
    intro old hold
    rcases List.mem_append.mp hold with hearlier | hlast
    · exact hown.own old hearlier
    · rw [List.mem_singleton.mp hlast, hdevice]
  · rfl

theorem OwnHistory.newestUpsert_of_head (hown : OwnHistory device latest log) {head : NoteLogEntry}
    (hhead : log.getLast? = some head) {found : DateTime × Note}
    (hupsert : head.upsert? = some found) : newestUpsert log = some found := by
  obtain ⟨earlier, rfl⟩ := List.getLast?_eq_some_iff.mp hhead
  rw [newestUpsert_concat earlier head fun old hold =>
    (List.pairwise_append.mp hown.timed).2.2 old hold head (List.mem_singleton_self head), hupsert]
  rfl

end History

def NoteLogEntry.version (entry : NoteLogEntry) : EntityVersion Note :=
  ⟨entry.timestamp, entry.deviceId, entry.upsert?.map Prod.snd⟩

namespace FsTree

variable {tree : FsTree} {id : Uuid} {device : String} {latest at_ : DateTime}
  {log front back : NoteLog} {head : NoteLogEntry}

theorem noteVersions_of_log (hlogs : tree.noteLogs id = [log]) :
    tree.noteVersions id = log.map NoteLogEntry.version := by
  rw [noteVersions, hlogs, List.flatten_singleton]
  rfl

/-- The note of a log alone is what its head says. -/
theorem mergeNote_of_log (hlogs : tree.noteLogs id = [log]) (hhead : log.getLast? = some head) :
    tree.mergeNote id = .ok (resolvedNote [log] head) := by
  have hheads : heads [log] = [head] := by
    simp only [heads, List.filterMap_cons, hhead, List.filterMap_nil]
  have hfrontier : frontier [head] = [head] := by simp [frontier]
  simp only [mergeNote, mergeLogs, hlogs, merge, hheads, hfrontier, maxBy_singleton]
  rfl

/-- The last entry that is not after the instant is in force. -/
theorem stateAt_of_log (hlogs : tree.noteLogs id = [front ++ back])
    (hown : OwnHistory device latest (front ++ back))
    (hfront : ∀ old ∈ front, old.timestamp ≤ at_) (hback : ∀ old ∈ back, at_ < old.timestamp) :
    stateAt (tree.noteHistory id REVERT_SCAN_LIMIT) at_ =
      front.getLast?.map NoteLogEntry.version := by
  have hversions := noteVersions_of_log hlogs
  have hbefore : ∀ old ∈ front ++ back, old.timestamp ≤ at_ → old ∈ front := by
    intro old hold hle
    rcases List.mem_append.mp hold with hearlier | hafter
    · exact hearlier
    · exact absurd hle (not_le.mpr (hback old hafter))
  cases hlast : front.getLast? with
  | none =>
      refine stateAt_eq_none.mpr fun hsome => ?_
      obtain ⟨version, hmem, hle⟩ := hsome
      have hrecorded : version ∈ tree.noteVersions id :=
        List.mem_mergeSort.mp (List.mem_of_mem_take hmem)
      rw [hversions] at hrecorded
      obtain ⟨old, hold, rfl⟩ := List.mem_map.mp hrecorded
      have hnone := hbefore old hold hle
      rw [List.getLast?_eq_none_iff.mp hlast] at hnone
      exact absurd hnone List.not_mem_nil
  | some last =>
      have hmemLast : last ∈ front := List.mem_of_getLast? hlast
      have hrecorded : last.version ∈ tree.noteVersions id := by
        rw [hversions]
        exact List.mem_map_of_mem (List.mem_append_left _ hmemLast)
      have hcount : ((tree.noteVersions id).countP fun version => at_ < version.timestamp) <
          historyCap REVERT_SCAN_LIMIT := by
        refine lt_of_le_of_lt List.countP_le_length ?_
        rw [hversions, List.length_map]
        exact lt_of_le_of_lt hown.short (by decide)
      obtain ⟨version, hchosen, hmem, hle, hnewest⟩ :=
        (selects_sortAndCap_iff (tree.noteVersions id) at_ REVERT_SCAN_LIMIT).mpr
          (fun _ => hcount) ⟨last.version, hrecorded, hfront last hmemLast⟩
      rw [hversions] at hmem
      obtain ⟨chosen, hchosenMem, rfl⟩ := List.mem_map.mp hmem
      have hsame : chosen = last := by
        refine hown.timed.eq_of_timestamp hchosenMem (List.mem_append_left _ hmemLast) ?_
        refine le_antisymm ?_ (hnewest last.version hrecorded (hfront last hmemLast))
        obtain ⟨earlier, rfl⟩ := List.getLast?_eq_some_iff.mp hlast
        rcases List.mem_append.mp (hbefore chosen hchosenMem hle) with hfirst | hsame
        · have htimed := (List.pairwise_append.mp hown.timed).1
          exact le_of_lt ((List.pairwise_append.mp htimed).2.2 chosen hfirst last
            (List.mem_singleton_self last))
        · rw [List.mem_singleton.mp hsame]
      rw [hsame] at hchosen
      exact hchosen

end FsTree

end Keeplin
