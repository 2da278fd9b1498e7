/-
Logs of a note that were read at any two moments.  If their joined vectors are
equal then so are their frontiers, and the same entry wins both merges.
-/
import Keeplin.NoteCausality
import Keeplin.MergeOrder

namespace Keeplin

open VersionVector EventClock

/-- The logs have recorded entries, and the heads of different logs are of
different devices. -/
structure RecordedLogs (history : History NoteLogEntry) (logs : List NoteLog) : Prop where
  recorded : ∀ log ∈ logs, ∀ entry ∈ log, Recorded history entry
  devices : ((heads logs).map NoteLogEntry.deviceId).Nodup

section Logs

variable {history : History NoteLogEntry} {logs others : List NoteLog} {dir : NoteDir}

theorem RecordedLogs.nil : RecordedLogs history [] :=
  ⟨fun _ hlog => absurd hlog List.not_mem_nil, List.nodup_nil⟩

theorem RecordedLogs.head (hlogs : RecordedLogs history logs) {head : NoteLogEntry}
    (hhead : head ∈ heads logs) : Recorded history head := by
  obtain ⟨log, hlog, hlast⟩ := List.mem_filterMap.mp hhead
  exact hlogs.recorded log hlog head (List.mem_of_getLast? hlast)

theorem RecordedLogs.mono {grown : History NoteLogEntry} (hlogs : RecordedLogs history logs)
    (hgrown : ∀ entry, Recorded history entry → Recorded grown entry) :
    RecordedLogs grown logs where
  recorded log hlog entry hentry := hgrown entry (hlogs.recorded log hlog entry hentry)
  devices := hlogs.devices

/-- The files of a folder are the logs of the devices they are named after. -/
theorem recordedLogs_of_files (hnames : (dir.map Prod.fst).Nodup)
    (hfiles : ∀ file ∈ dir, OwnerLog history file.1 file.2) :
    RecordedLogs history (readNoteLogs dir) where
  recorded := by
    intro log hlog entry hentry
    obtain ⟨file, hfile, rfl⟩ := List.mem_map.mp hlog
    exact (hfiles file hfile).recorded entry hentry
  devices := by
    rw [List.Nodup, List.pairwise_map, heads, List.pairwise_filterMap, readNoteLogs,
      List.pairwise_map]
    rw [List.Nodup, List.pairwise_map] at hnames
    refine hnames.imp_of_mem fun {first second} hfirst hsecond hne head hhead other hother => ?_
    rw [(hfiles first hfirst).own head (List.mem_of_getLast? hhead),
      (hfiles second hsecond).own other (List.mem_of_getLast? hother)]
    exact hne

variable (hexact : entryClock.Exact history)

include hexact in
/-- A head lies at or below a head of any logs with the same joined vector. -/
theorem exists_head_above (hlogs : RecordedLogs history logs)
    (hothers : RecordedLogs history others)
    (hvv : mergedVv (heads logs) = mergedVv (heads others)) :
    ∀ head ∈ heads logs, ∃ above ∈ heads others, head = above ∨ Past history head above := by
  intro head hhead
  have hrecorded := hlogs.head hhead
  have hpositive : 0 < count head.vv head.deviceId := hexact.count_author_pos hrecorded
  have hle := le_count_mergedVv hhead head.deviceId
  rw [hvv] at hle
  obtain ⟨above, habove, hcount⟩ := exists_head_of_lt_count_mergedVv
    (Nat.lt_of_lt_of_le (Nat.sub_lt hpositive Nat.one_pos) hle)
  have hauthor : count head.vv head.deviceId ≤ count above.vv head.deviceId := by omega
  exact ⟨above, habove, (hexact.author_count_le_iff hrecorded (hothers.head habove)).mp hauthor⟩

include hexact in
theorem frontier_subset_of_mergedVv (hlogs : RecordedLogs history logs)
    (hothers : RecordedLogs history others)
    (hvv : mergedVv (heads logs) = mergedVv (heads others)) :
    frontier (heads logs) ⊆ frontier (heads others) := by
  intro entry hentry
  obtain ⟨hhead, hlatest⟩ := (mem_frontier_iff_past hexact fun _ => hlogs.head).mp hentry
  exact (mem_frontier_iff_past hexact fun _ => hothers.head).mpr
    (latest_of_cofinal (exists_head_above hexact hlogs hothers hvv)
      (exists_head_above hexact hothers hlogs hvv.symm) hhead hlatest)

theorem RecordedLogs.nodup_frontier (hlogs : RecordedLogs history logs) :
    (frontier (heads logs)).Nodup :=
  (List.Nodup.of_map _ hlogs.devices).sublist List.filter_sublist

include hexact in
/-- The joined vector tells which entry wins. -/
theorem winner_of_mergedVv (hlogs : RecordedLogs history logs)
    (hothers : RecordedLogs history others)
    (hvv : mergedVv (heads logs) = mergedVv (heads others)) :
    maxBy NoteLogEntry.compareStamp (frontier (heads logs)) =
      maxBy NoteLogEntry.compareStamp (frontier (heads others)) := by
  have hperm : (frontier (heads logs)).Perm (frontier (heads others)) := by
    rw [List.perm_ext_iff_of_nodup hlogs.nodup_frontier hothers.nodup_frontier]
    exact fun entry => ⟨fun hentry => frontier_subset_of_mergedVv hexact hlogs hothers hvv hentry,
      fun hentry => frontier_subset_of_mergedVv hexact hothers hlogs hvv.symm hentry⟩
  exact maxBy_perm _ hperm fun first hfirst second hsecond hstamp =>
    eq_of_compareStamp hlogs.devices hfirst hsecond hstamp

include hexact in
theorem heads_nil_of_mergedVv (hlogs : RecordedLogs history logs)
    (hvv : mergedVv (heads logs) = ∅) : heads logs = [] := by
  have hempty : mergedVv (heads logs) = mergedVv (heads []) := hvv
  refine List.eq_nil_iff_forall_not_mem.mpr fun head hhead => ?_
  obtain ⟨above, habove, -⟩ := exists_head_above hexact hlogs .nil hempty head hhead
  exact absurd habove List.not_mem_nil

include hexact in
/-- Recorded logs merge. -/
theorem RecordedLogs.exists_merge (hlogs : RecordedLogs history logs) :
    ∃ merged, merge logs = some merged :=
  Option.isSome_iff_exists.mp (merge_isSome_of_recorded hexact fun _ => hlogs.head)

end Logs

end Keeplin
