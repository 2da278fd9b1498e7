/-
A directory lists the logs of a note in any order.  The frontier and its winner
do not depend on it; the content that a winning tombstone deletes does, where
several logs have an upsert of the latest instant.
-/
import Keeplin.NoteLogCompaction
import Mathlib.Data.List.Nodup

namespace Keeplin

open VersionVector

/-- The winner of the merge is a tombstone: on the frontier, and no other head
of the frontier has a later stamp. -/
def TombstoneWins (logs : List NoteLog) : Prop :=
  ∃ winner ∈ frontier (heads logs),
    (∀ other ∈ frontier (heads logs),
      (NoteLogEntry.compareStamp other winner).isLE = true) ∧
    ∃ deletedAt, winner.op = .tombstone deletedAt

/-- What is left of a note when the instants a tombstone sets are taken away. -/
def Note.keptByTombstone (note : Note) : Note :=
  { note with deletedAt := none, updatedAt := epochStart }

/-- The logs whose newest upsert has the latest instant of all upserts have one
content there. -/
def LatestUpsertsAgree (logs : List NoteLog) : Prop :=
  ∀ first ∈ logs, ∀ second ∈ logs, ∀ ts one other,
    newestUpsert first = some (ts, one) → newestUpsert second = some (ts, other) →
    (∀ log ∈ logs, ∀ found, newestUpsert log = some found → found.1 ≤ ts) →
    one.keptByTombstone = other.keptByTombstone

theorem keptByTombstone_eq_iff {one other : Note} (deletedAt : DateTime) :
    one.keptByTombstone = other.keptByTombstone ↔
      ({ one with deletedAt := some deletedAt, updatedAt := deletedAt } : Note) =
        { other with deletedAt := some deletedAt, updatedAt := deletedAt } := by
  cases one
  cases other
  simp [Note.keptByTombstone]

section Frontier

variable {logs others : List NoteLog}

theorem heads_perm (hperm : others.Perm logs) : (heads others).Perm (heads logs) :=
  hperm.filterMap _

theorem mergedVv_perm {entries rest : List NoteLogEntry} (hperm : rest.Perm entries) :
    mergedVv rest = mergedVv entries :=
  hperm.foldl_eq' (fun first _ second _ vv => join_right_comm vv first.vv second.vv) ∅

theorem frontier_perm {entries rest : List NoteLogEntry} (hperm : rest.Perm entries) :
    (frontier rest).Perm (frontier entries) := by
  have hany : ∀ head : NoteLogEntry,
      (rest.any fun other => dominates other.vv head.vv && other.vv != head.vv) =
        entries.any fun other => dominates other.vv head.vv && other.vv != head.vv :=
    fun head => hperm.any_eq
  simp only [frontier, hany]
  exact hperm.filter _

/-- Heads of different devices have different stamps. -/
theorem eq_of_compareStamp (hdevices : ((heads logs).map NoteLogEntry.deviceId).Nodup)
    {first second : NoteLogEntry} (hfirst : first ∈ frontier (heads logs))
    (hsecond : second ∈ frontier (heads logs))
    (hstamp : NoteLogEntry.compareStamp first second = .eq) : first = second := by
  simp only [NoteLogEntry.compareStamp, compareLex_eq_eq, compareOn,
    Std.LawfulEqCmp.compare_eq_iff_eq] at hstamp
  exact List.inj_on_of_nodup_map hdevices (mem_frontier_iff.mp hfirst).1
    (mem_frontier_iff.mp hsecond).1 hstamp.2

/-- The listing order changes neither the frontier's winner nor anything else
of a merge but the note. -/
theorem winner_perm (hperm : others.Perm logs)
    (hdevices : ((heads logs).map NoteLogEntry.deviceId).Nodup) :
    maxBy NoteLogEntry.compareStamp (frontier (heads others)) =
      maxBy NoteLogEntry.compareStamp (frontier (heads logs)) := by
  have hfrontier := frontier_perm (heads_perm hperm)
  apply maxBy_perm _ hfrontier
  intro first hfirst second hsecond hstamp
  exact eq_of_compareStamp hdevices (hfrontier.mem_iff.mp hfirst)
    (hfrontier.mem_iff.mp hsecond) hstamp

/-- So two merges differ in the note alone. -/
theorem merge_eq_iff_of_perm (hperm : others.Perm logs)
    (hdevices : ((heads logs).map NoteLogEntry.deviceId).Nodup) :
    merge others = merge logs ↔
      ∀ winner, maxBy NoteLogEntry.compareStamp (frontier (heads logs)) = some winner →
        resolvedNote others winner = resolvedNote logs winner := by
  have hheads := heads_perm hperm
  unfold merge
  rw [hheads.isEmpty_eq, winner_perm hperm hdevices, mergedVv_perm hheads,
    (frontier_perm hheads).length_eq]
  by_cases hnone : (heads logs).isEmpty = true
  · simp only [hnone, ↓reduceIte, true_iff]
    intro winner hwinner
    rw [List.isEmpty_iff.mp hnone] at hwinner
    contradiction
  · rw [if_neg hnone, if_neg hnone]
    cases maxBy NoteLogEntry.compareStamp (frontier (heads logs)) with
    | none => simp
    | some winner => simp

theorem tombstoneWins_of_winner {winner : NoteLogEntry} {deletedAt : DateTime}
    (hwinner : maxBy NoteLogEntry.compareStamp (frontier (heads logs)) = some winner)
    (hop : winner.op = .tombstone deletedAt) : TombstoneWins logs :=
  ⟨winner, maxBy_mem _ hwinner, isLE_maxBy _ hwinner, deletedAt, hop⟩

/-- The tombstone that wins is the one the merge picks. -/
theorem winner_of_tombstoneWins
    (hdevices : ((heads logs).map NoteLogEntry.deviceId).Nodup)
    (htombstone : TombstoneWins logs) :
    ∃ winner deletedAt,
      maxBy NoteLogEntry.compareStamp (frontier (heads logs)) = some winner ∧
        winner.op = .tombstone deletedAt := by
  obtain ⟨winner, hmem, hlast, deletedAt, hop⟩ := htombstone
  cases hbest : maxBy NoteLogEntry.compareStamp (frontier (heads logs)) with
  | none =>
      rw [(maxBy_eq_none_iff _).mp hbest] at hmem
      exact absurd hmem List.not_mem_nil
  | some best =>
      have hbestMem := maxBy_mem _ hbest
      have hstamp := Std.OrientedCmp.isLE_antisymm (isLE_maxBy _ hbest winner hmem)
        (hlast best hbestMem)
      refine ⟨best, deletedAt, rfl, ?_⟩
      rw [← eq_of_compareStamp hdevices hmem hbestMem hstamp, hop]

end Frontier

section Latest

variable {logs others : List NoteLog}

/-- The latest upsert of all logs is the latest of the newest of each. -/
theorem latestUpsert_eq (logs : List NoteLog) :
    latestUpsert logs =
      (maxBy (compareOn Prod.fst) (logs.filterMap newestUpsert)).map Prod.snd := by
  unfold latestUpsert
  congr 1
  induction logs with
  | nil => rfl
  | cons log rest ih =>
      have hnewest : maxBy (compareOn Prod.fst) (log.filterMap NoteLogEntry.upsert?) =
          newestUpsert log := rfl
      rw [List.flatten_cons, List.filterMap_append, maxBy_append, ih, hnewest,
        List.filterMap_cons]
      cases newestUpsert log with
      | none => rfl
      | some found =>
          change _ = maxBy (compareOn Prod.fst) ([found] ++ rest.filterMap newestUpsert)
          rw [maxBy_append, maxBy_singleton]

/-- The latest upsert is the newest of one of the logs, of the latest instant. -/
theorem exists_log_of_latestUpsert {note : Note} (hlatest : latestUpsert logs = some note) :
    ∃ log ∈ logs, ∃ ts, newestUpsert log = some (ts, note) ∧
      ∀ other ∈ logs, ∀ found, newestUpsert other = some found → found.1 ≤ ts := by
  rw [latestUpsert_eq] at hlatest
  obtain ⟨⟨ts, found⟩, hmax, rfl⟩ := Option.map_eq_some_iff.mp hlatest
  obtain ⟨log, hlog, hnewest⟩ := List.mem_filterMap.mp (maxBy_mem _ hmax)
  refine ⟨log, hlog, ts, hnewest, fun other hother later hlater => ?_⟩
  have hmem : later ∈ logs.filterMap newestUpsert :=
    List.mem_filterMap.mpr ⟨other, hother, hlater⟩
  have hle := isLE_maxBy (compareOn Prod.fst) hmax later hmem
  exact Int.isLE_compare.mp hle

theorem latestUpsert_isSome_perm (hperm : others.Perm logs) :
    (latestUpsert others).isSome = (latestUpsert logs).isSome := by
  rw [latestUpsert_eq, latestUpsert_eq, Option.isSome_map, Option.isSome_map,
    Bool.eq_iff_iff, Option.isSome_iff_ne_none, Option.isSome_iff_ne_none, Ne, Ne,
    maxBy_eq_none_iff, maxBy_eq_none_iff]
  have hlength := (hperm.filterMap newestUpsert).length_eq
  rw [← List.length_eq_zero_iff, ← List.length_eq_zero_iff, hlength]

/-- A log listed last gives its newest upsert, when that has the latest instant. -/
theorem latestUpsert_listed_last {front : List NoteLog} {log : NoteLog} {ts : DateTime}
    {note : Note} (hnewest : newestUpsert log = some (ts, note))
    (hlast : ∀ other ∈ front, ∀ found, newestUpsert other = some found → found.1 ≤ ts) :
    latestUpsert (front ++ [log]) = some note := by
  rw [latestUpsert_eq, List.filterMap_append]
  simp only [List.filterMap_cons, hnewest, List.filterMap_nil]
  rw [maxBy_concat]
  cases hfront : maxBy (compareOn Prod.fst) (front.filterMap newestUpsert) with
  | none => rfl
  | some best =>
      obtain ⟨other, hother, hfound⟩ := List.mem_filterMap.mp (maxBy_mem _ hfront)
      have hle := hlast other hother best hfound
      have hnot : compareOn Prod.fst best (ts, note) ≠ .gt :=
        Ordering.isLE_iff_ne_gt.mp (Int.isLE_compare.mpr hle)
      simp only [later, if_neg hnot, Option.map_some]

end Latest

/-- Listing the logs of different devices in another order never changes a
merge exactly when the winner is an upsert or the latest upserts have one
content. -/
theorem merge_perm_iff {logs : List NoteLog}
    (hdevices : ((heads logs).map NoteLogEntry.deviceId).Nodup) :
    (∀ others : List NoteLog, others.Perm logs → merge others = merge logs) ↔
      (TombstoneWins logs → LatestUpsertsAgree logs) := by
  constructor
  · intro hsame htombstone first hfirst second hsecond ts one other hone hother hlast
    obtain ⟨winner, deletedAt, hwinner, hop⟩ := winner_of_tombstoneWins hdevices htombstone
    -- Each of the two logs listed last gives the content it has.
    have hnote : ∀ log ∈ logs, ∀ note, newestUpsert log = some (ts, note) →
        resolvedNote logs winner =
          some { note with deletedAt := some deletedAt, updatedAt := deletedAt } := by
      intro log hlog note hnewest
      have hperm : (logs.erase log ++ [log]).Perm logs :=
        List.perm_append_comm.trans (List.perm_cons_erase hlog).symm
      have hmerge := (merge_eq_iff_of_perm hperm hdevices).mp (hsame _ hperm) winner hwinner
      have hlatest : latestUpsert (logs.erase log ++ [log]) = some note :=
        latestUpsert_listed_last hnewest fun member hmember =>
          hlast member (List.mem_of_mem_erase hmember)
      rw [← hmerge]
      simp only [resolvedNote, hop, hlatest, Option.map_some]
    have hequal := (hnote first hfirst one hone).symm.trans (hnote second hsecond other hother)
    exact (keptByTombstone_eq_iff deletedAt).mpr (Option.some.inj hequal)
  · intro hagree others hperm
    rw [merge_eq_iff_of_perm hperm hdevices]
    intro winner hwinner
    unfold resolvedNote
    cases hop : winner.op with
    | upsert note => rfl
    | tombstone deletedAt =>
        have hagree := hagree (tombstoneWins_of_winner hwinner hop)
        have hsome := latestUpsert_isSome_perm hperm
        cases hone : latestUpsert others with
        | none =>
            rw [hone, Option.isSome_none, eq_comm, Option.isSome_eq_false_iff,
              Option.isNone_iff_eq_none] at hsome
            rw [hsome]
        | some one =>
            rw [hone] at hsome
            obtain ⟨other, hother⟩ := Option.isSome_iff_exists.mp hsome.symm
            obtain ⟨first, hfirst, ts, hfirstNewest, hfirstLast⟩ :=
              exists_log_of_latestUpsert hone
            obtain ⟨second, hsecond, ts', hsecondNewest, hsecondLast⟩ :=
              exists_log_of_latestUpsert hother
            have hfirstMem := hperm.mem_iff.mp hfirst
            have hts : ts = ts' := Int.le_antisymm
              (hsecondLast first hfirstMem _ hfirstNewest)
              (hfirstLast second (hperm.mem_iff.mpr hsecond) _ hsecondNewest)
            subst hts
            have hkept := hagree first hfirstMem second hsecond ts one other hfirstNewest
              hsecondNewest hsecondLast
            rw [hother]
            exact congrArg some ((keptByTombstone_eq_iff deletedAt).mp hkept)

namespace MergeOrderWitness

def note (body : String) : Note :=
  { id := 7, title := "", body := body, notebookId := Uuid.nil, isTodo := false
    todoDue := none, todoCompleted := none, createdAt := 1, updatedAt := 5
    deletedAt := none, «alias» := none, bookmarks := [], links := []
    vv := ∅, lastWriter := "", isPinned := false, isStarred := false, sortKey := 0 }

/-- Two devices write the note at one instant; a third deletes what it has seen
of both. -/
def logA : NoteLog := [⟨increment ∅ "A", 5, "A", .upsert (note "from A")⟩]

def logB : NoteLog := [⟨increment ∅ "B", 5, "B", .upsert (note "from B")⟩]

def logC : NoteLog :=
  [⟨increment (increment (increment ∅ "A") "B") "C", 9, "C", .tombstone 9⟩]

/-- The content of the deleted note depends on which log is listed last. -/
theorem merge_depends_on_order :
    ((heads [logA, logB, logC]).map NoteLogEntry.deviceId).Nodup ∧
      [logB, logA, logC].Perm [logA, logB, logC] ∧
      (merge [logA, logB, logC]).map (fun merged => merged.note.map Note.body) =
        some (some "from B") ∧
      (merge [logB, logA, logC]).map (fun merged => merged.note.map Note.body) =
        some (some "from A") := by
  decide

theorem merge_perm_iff_logs :
    (∀ others : List NoteLog, others.Perm [logA, logC] →
      merge others = merge [logA, logC]) ↔
      (TombstoneWins [logA, logC] → LatestUpsertsAgree [logA, logC]) :=
  merge_perm_iff (by decide)

end MergeOrderWitness

end Keeplin
