/-
The operation logs of a note.  Every device appends to its own log and all
logs are merged: the entries no other entry dominates are the frontier, the
latest of them wins, and a tombstone that wins keeps the latest content.
-/
import Keeplin.Models
import Keeplin.LastMaximum

namespace Keeplin

open VersionVector

inductive NoteOp where
  | upsert (note : Note)
  | tombstone (deletedAt : DateTime)
deriving DecidableEq

structure NoteLogEntry where
  vv : VersionVector
  timestamp : DateTime
  deviceId : String
  op : NoteOp
deriving DecidableEq

abbrev NoteLog := List NoteLogEntry

structure Merged where
  note : Option Note
  vv : VersionVector
  winnerVv : VersionVector
  winnerDevice : String
  conflict : Bool
deriving DecidableEq

namespace NoteLogEntry

/-- The instant and the note of an upsert. -/
def upsert? (entry : NoteLogEntry) : Option (DateTime × Note) :=
  match entry.op with
  | .upsert note => some (entry.timestamp, note)
  | .tombstone _ => none

def isUpsert (entry : NoteLogEntry) : Bool :=
  match entry.op with
  | .upsert _ => true
  | .tombstone _ => false

/-- The tie-break between concurrent entries: timestamp, then device. -/
def compareStamp : NoteLogEntry → NoteLogEntry → Ordering :=
  compareLex (compareOn timestamp) (compareOn deviceId)

instance : Std.TransCmp compareStamp :=
  inferInstanceAs (Std.TransCmp (compareLex _ _))

end NoteLogEntry

/-- The last entry of every log that has one. -/
def heads (logs : List NoteLog) : List NoteLogEntry :=
  logs.filterMap List.getLast?

def mergedVv (heads : List NoteLogEntry) : VersionVector :=
  heads.foldl (fun vv head => join vv head.vv) ∅

/-- The heads that no head with another vector dominates.  A head never
discards itself, its own vector being equal. -/
def frontier (heads : List NoteLogEntry) : List NoteLogEntry :=
  heads.filter fun head =>
    !heads.any fun other => dominates other.vv head.vv && other.vv != head.vv

/-- The content a winning tombstone deletes: the latest upsert of all logs. -/
def latestUpsert (logs : List NoteLog) : Option Note :=
  (maxBy (compareOn Prod.fst) (logs.flatten.filterMap NoteLogEntry.upsert?)).map
    Prod.snd

def resolvedNote (logs : List NoteLog) (winner : NoteLogEntry) : Option Note :=
  match winner.op with
  | .upsert note => some note
  | .tombstone deletedAt =>
      (latestUpsert logs).map fun note =>
        { note with deletedAt := some deletedAt, updatedAt := deletedAt }

/-- The merge of a note's logs.  There is no result where the frontier of
existing heads is empty, which the code rules out by an `expect`. -/
def merge (logs : List NoteLog) : Option Merged :=
  if (heads logs).isEmpty then some ⟨none, ∅, ∅, "", false⟩
  else
    (maxBy NoteLogEntry.compareStamp (frontier (heads logs))).map fun winner =>
      { note := resolvedNote logs winner
        vv := mergedVv (heads logs)
        winnerVv := winner.vv
        winnerDevice := winner.deviceId
        conflict := decide (1 < (frontier (heads logs)).length) }

/-- One device's log reduced to what a merge can still need: its head and the
latest upsert.  Entries are told apart by their position. -/
def compactOwnLog (log : NoteLog) : NoteLog :=
  if log.length ≤ 1 then log
  else
    match log.getLast? with
    | none => log
    | some head =>
        match maxBy (fun a b => NoteLogEntry.compareStamp a.1 b.1)
            (log.zipIdx.filter fun entry => entry.1.isUpsert) with
        | none => [head]
        | some (newest, position) =>
            if position = log.length - 1 then [head] else [newest, head]

inductive Winner where
  | «local»
  | incoming
deriving DecidableEq, Repr

/-- The conflict rule of versioned rows and sidecars: dominance decides, and
concurrent versions are ordered by instant, then device. -/
def resolve (localVv : VersionVector) (localTs : DateTime) (localDevice : String)
    (incomingVv : VersionVector) (incomingTs : DateTime) (incomingDevice : String) :
    Winner :=
  match dominates incomingVv localVv, dominates localVv incomingVv with
  | true, false => .incoming
  | _, true => .local
  | false, false =>
      if localTs < incomingTs ∨ (incomingTs = localTs ∧ localDevice < incomingDevice)
      then .incoming else .local

section Resolve

variable {localVv incomingVv : VersionVector} {localTs incomingTs : DateTime}
  {localDevice incomingDevice : String}

/-- A version the stored one dominates never wins. -/
theorem resolve_of_dominated (hdom : dominates localVv incomingVv = true) :
    resolve localVv localTs localDevice incomingVv incomingTs incomingDevice = .local := by
  unfold resolve
  rw [hdom]
  cases dominates incomingVv localVv <;> rfl

/-- A version that strictly dominates the stored one always wins. -/
theorem resolve_of_dominates (hdom : dominates incomingVv localVv = true)
    (hnot : dominates localVv incomingVv = false) :
    resolve localVv localTs localDevice incomingVv incomingTs incomingDevice =
      .incoming := by
  unfold resolve
  rw [hdom, hnot]

/-- Concurrent versions are decided by the later instant, then the device. -/
theorem resolve_of_concurrent (hincoming : dominates incomingVv localVv = false)
    (hlocal : dominates localVv incomingVv = false) :
    resolve localVv localTs localDevice incomingVv incomingTs incomingDevice =
        .incoming ↔
      localTs < incomingTs ∨ (incomingTs = localTs ∧ localDevice < incomingDevice) := by
  unfold resolve
  rw [hincoming, hlocal]
  simp only
  split <;> simp_all

/-- The winner is dominated by nothing it replaced. -/
theorem not_dominates_of_resolve
    (hwins : resolve localVv localTs localDevice incomingVv incomingTs incomingDevice =
      .incoming) : dominates localVv incomingVv = false := by
  by_contra hdom
  rw [resolve_of_dominated (by simpa using hdom)] at hwins
  contradiction

end Resolve

section Merge

/-- A merge reads its logs through their heads and their latest upsert. -/
theorem merge_congr {logs others : List NoteLog} (hheads : heads logs = heads others)
    (hlatest : latestUpsert logs = latestUpsert others) : merge logs = merge others := by
  unfold merge resolvedNote
  rw [hheads, hlatest]

theorem merge_vv {logs : List NoteLog} {merged : Merged}
    (hmerged : merge logs = some merged) : merged.vv = mergedVv (heads logs) := by
  unfold merge at hmerged
  split at hmerged
  · next hempty =>
      rw [List.isEmpty_iff] at hempty
      rw [Option.some.injEq] at hmerged
      rw [← hmerged, hempty]
      rfl
  · obtain ⟨winner, _, rfl⟩ := Option.map_eq_some_iff.mp hmerged
    rfl

/-- The joined vector counts what some head counts. -/
theorem count_mergedVv_le {entries : List NoteLogEntry} {device : String} {bound : Nat}
    (hbound : ∀ entry ∈ entries, count entry.vv device ≤ bound) :
    count (mergedVv entries) device ≤ bound := by
  have hfold : ∀ (rest : List NoteLogEntry) (vv : VersionVector),
      (∀ entry ∈ rest, count entry.vv device ≤ bound) → count vv device ≤ bound →
        count (rest.foldl (fun vv head => join vv head.vv) vv) device ≤ bound := by
    intro rest
    induction rest with
    | nil => exact fun vv _ hvv => hvv
    | cons entry rest ih =>
        intro vv hrest hvv
        refine ih _ (fun other hother => hrest other (List.mem_cons_of_mem entry hother)) ?_
        rw [count_join]
        exact Nat.max_le.mpr ⟨hvv, hrest entry List.mem_cons_self⟩
  exact hfold entries ∅ hbound (by simp)

theorem le_count_mergedVv {entries : List NoteLogEntry} {entry : NoteLogEntry}
    (hentry : entry ∈ entries) (device : String) :
    count entry.vv device ≤ count (mergedVv entries) device := by
  have hkeep : ∀ (rest : List NoteLogEntry) (vv : VersionVector),
      count vv device ≤
        count (rest.foldl (fun vv head => join vv head.vv) vv) device := by
    intro rest
    induction rest with
    | nil => exact fun vv => Nat.le_refl _
    | cons other rest ih =>
        intro vv
        refine Nat.le_trans ?_ (ih _)
        rw [count_join]
        exact Nat.le_max_left _ _
  have htake : ∀ (rest : List NoteLogEntry) (vv : VersionVector), entry ∈ rest →
      count entry.vv device ≤
        count (rest.foldl (fun vv head => join vv head.vv) vv) device := by
    intro rest
    induction rest with
    | nil => exact fun vv hmem => absurd hmem List.not_mem_nil
    | cons other rest ih =>
        intro vv hmem
        rcases List.mem_cons.mp hmem with rfl | hrest
        · refine Nat.le_trans ?_ (hkeep rest _)
          rw [count_join]
          exact Nat.le_max_right _ _
        · exact ih _ hrest
  exact htake entries ∅ hentry

/-- The joined vector names the devices that some head names. -/
theorem mem_mergedVv {entries : List NoteLogEntry} {device : String} :
    device ∈ mergedVv entries ↔ ∃ entry ∈ entries, device ∈ entry.vv := by
  have hfold : ∀ (rest : List NoteLogEntry) (vv : VersionVector),
      device ∈ rest.foldl (fun vv head => join vv head.vv) vv ↔
        device ∈ vv ∨ ∃ entry ∈ rest, device ∈ entry.vv := by
    intro rest
    induction rest with
    | nil => simp
    | cons entry rest ih =>
        intro vv
        rw [List.foldl_cons, ih, mem_join]
        simp only [List.mem_cons, exists_eq_or_imp, or_assoc]
  rw [mergedVv, hfold]
  simp

theorem exists_head_of_lt_count_mergedVv {entries : List NoteLogEntry} {device : String}
    {n : Nat} (hn : n < count (mergedVv entries) device) :
    ∃ entry ∈ entries, n < count entry.vv device := by
  by_contra hnone
  have hle : count (mergedVv entries) device ≤ n := count_mergedVv_le fun entry hentry =>
    Nat.le_of_not_lt fun hlt => hnone ⟨entry, hentry, hlt⟩
  omega

theorem mem_frontier_iff {entries : List NoteLogEntry} {entry : NoteLogEntry} :
    entry ∈ frontier entries ↔ entry ∈ entries ∧
      ∀ other ∈ entries, dominates other.vv entry.vv = true → other.vv = entry.vv := by
  simp [frontier]

end Merge

end Keeplin
