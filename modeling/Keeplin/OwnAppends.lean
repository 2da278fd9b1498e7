/-
Appends of a device to its own log of a note, among any logs of other devices.
The counters of a vector have 64 bits.  Short of the last one, an appended
operation always wins the merge, whatever the clocks say, and the vectors of the
own log increase strictly.
-/
import Keeplin.FsNotes
import Mathlib.Algebra.Group.Nat.Defs

namespace Keeplin

open VersionVector

/-- The counters of a vector wrap around after this one. -/
def MAX_COUNTER : Nat := 2 ^ 64 - 1

def VersionVector.incrementU64 (vv : VersionVector) (device : String) : VersionVector :=
  vv.insert device ((vv.getD device 0 + 1) % 2 ^ 64)

theorem incrementU64_eq {vv : VersionVector} {device : String}
    (hbelow : count vv device < MAX_COUNTER) : vv.incrementU64 device = vv.increment device := by
  have hsmall : vv.getD device 0 + 1 < 2 ^ 64 := by
    have hlt : vv.getD device 0 < 2 ^ 64 - 1 := hbelow
    omega
  rw [incrementU64, increment, Nat.mod_eq_of_lt hsmall]

/-- A folder of a note, whose files have names of their own. -/
structure LogFolder where
  dir : NoteDir
  names : (dir.map Prod.fst).Nodup

namespace LogFolder

def write (folder : LogFolder) (device : String) (log : NoteLog) : LogFolder :=
  ⟨writeNoteLog folder.dir device log, Directory.nodup_put folder.names⟩

/-- Append an operation; there is no result where the merge of the logs fails. -/
def append (folder : LogFolder) (device : String) (timestamp : DateTime) (op : NoteOp) :
    Option (NoteLogEntry × LogFolder) :=
  (merge (readNoteLogs folder.dir)).map fun merged =>
    let entry : NoteLogEntry := ⟨merged.vv.incrementU64 device, timestamp, device, op⟩
    let log := ownNoteLog folder.dir device ++ [entry]
    let log := if NOTE_LOG_COMPACT_THRESHOLD < log.length then compactOwnLog log else log
    (entry, folder.write device log)

/-- The joined vector of the logs has room for one more operation of the device. -/
def HasRoom (folder : LogFolder) (device : String) : Prop :=
  count (mergedVv (heads (readNoteLogs folder.dir))) device < MAX_COUNTER

/-- The vectors of a log increase strictly. -/
def Increasing (log : NoteLog) : Prop :=
  log.Pairwise fun earlier later =>
    dominates later.vv earlier.vv = true ∧ dominates earlier.vv later.vv = false

/-- The merge shows what the operation of the device says. -/
structure ShowsOp (before after : LogFolder) (device : String) (op : NoteOp) (merged : Merged) :
    Prop where
  merge : merge (readNoteLogs after.dir) = some merged
  upsert : ∀ note, op = .upsert note → merged.note = some note
  tombstone : ∀ deletedAt, op = .tombstone deletedAt → hasUpsert (readNoteLogs before.dir) →
    ∃ note, merged.note = some note ∧ note.deletedAt = some deletedAt
  winnerVv : merged.winnerVv = merged.vv
  winnerDevice : merged.winnerDevice = device
  conflict : merged.conflict = false

/-- The own log is appended to or compacted; the other files change in any way. -/
inductive Step where
  | append (timestamp : DateTime) (op : NoteOp)
  | compact
  | peers (folder : LogFolder)

def step (device : String) (folder : LogFolder) : Step → Option LogFolder
  | .append timestamp op => (folder.append device timestamp op).map Prod.snd
  | .compact => some (folder.write device (compactOwnLog (ownNoteLog folder.dir device)))
  | .peers next =>
      if next.dir.file? device = folder.dir.file? device then some next else none

/-- The counter does not wrap around. -/
def Fits (device : String) (folder : LogFolder) : Step → Prop
  | .append _ _ => folder.HasRoom device
  | _ => True

instance (folder : LogFolder) (device : String) : Decidable (folder.HasRoom device) :=
  inferInstanceAs (Decidable (_ < _))

instance decidableFits (device : String) (folder : LogFolder) :
    ∀ action : Step, Decidable (Fits device folder action)
  | .append _ _ => inferInstanceAs (Decidable (folder.HasRoom device))
  | .compact => .isTrue trivial
  | .peers _ => .isTrue trivial

variable {folder after : LogFolder} {device : String} {timestamp : DateTime} {op : NoteOp}
  {entry : NoteLogEntry}

theorem append_eq (happend : folder.append device timestamp op = some (entry, after))
    (hroom : folder.HasRoom device) :
    appendNoteOp device timestamp op folder.dir = some (entry, after.dir) := by
  obtain ⟨merged, hmerged, heq⟩ := Option.map_eq_some_iff.mp happend
  obtain ⟨rfl, rfl⟩ := Prod.mk.inj heq
  have hincrement : merged.vv.incrementU64 device = merged.vv.increment device := by
    refine incrementU64_eq ?_
    rw [merge_vv hmerged]
    exact hroom
  rw [appendNoteOp, hmerged, Option.map_some, hincrement]
  rfl

/-- No two files end with the appended entry. -/
theorem length_frontier_le (happend : appendNoteOp device timestamp op folder.dir =
    some (entry, after.dir)) : (frontier (heads (readNoteLogs after.dir))).length ≤ 1 := by
  obtain ⟨_, hheads⟩ := heads_of_append happend
  have hnew : ∀ file ∈ after.dir, file.2.getLast? = some entry → file.1 = device := by
    intro file hfile hlast
    rcases hheads file hfile entry hlast with ⟨hname, _⟩ | ⟨_, _, hlt⟩
    · exact hname
    · exact absurd hlt (Nat.lt_irrefl _)
  have hnames := after.names
  rw [List.Nodup, List.pairwise_map] at hnames
  have hdistinct : (heads (readNoteLogs after.dir)).Pairwise fun first second =>
      ¬ (first = entry ∧ second = entry) := by
    rw [heads, List.pairwise_filterMap, readNoteLogs, List.pairwise_map]
    refine hnames.imp_of_mem fun {first second} hfirst hsecond hne head hhead other hother => ?_
    rintro ⟨rfl, rfl⟩
    exact hne ((hnew first hfirst hhead).trans (hnew second hsecond hother).symm)
  have hfrontier : ∀ head ∈ frontier (heads (readNoteLogs after.dir)), head = entry :=
    fun head hhead => (mem_frontier_of_append happend).mp hhead
  have hpairs : (frontier (heads (readNoteLogs after.dir))).Pairwise fun first second =>
      ¬ (first = entry ∧ second = entry) := hdistinct.sublist List.filter_sublist
  rcases hlist : frontier (heads (readNoteLogs after.dir)) with _ | ⟨first, _ | ⟨second, rest⟩⟩
  · exact Nat.zero_le 1
  · exact Nat.le_refl 1
  · rw [hlist] at hpairs hfrontier
    have hboth := (List.pairwise_cons.mp hpairs).1 second List.mem_cons_self
    exact absurd ⟨hfrontier first List.mem_cons_self,
      hfrontier second (List.mem_cons_of_mem first List.mem_cons_self)⟩ hboth

/-- The joined vector is that of the appended entry. -/
theorem mergedVv_of_append (happend : appendNoteOp device timestamp op folder.dir =
    some (entry, after.dir)) : mergedVv (heads (readNoteLogs after.dir)) = entry.vv := by
  obtain ⟨hentry, hheads⟩ := heads_of_append happend
  obtain ⟨_, hvv, _⟩ := appendNoteOp_cases happend
  have hcases : ∀ head ∈ heads (readNoteLogs after.dir), head = entry ∨
      (head ∈ heads (readNoteLogs folder.dir) ∧ dominates entry.vv head.vv = true) := by
    intro head hmem
    obtain ⟨found, hfound, hlast⟩ := List.mem_filterMap.mp hmem
    obtain ⟨file, hfile, rfl⟩ := List.mem_map.mp hfound
    rcases hheads file hfile head hlast with ⟨_, heq⟩ | ⟨hold, hdominates, _⟩
    · exact Or.inl heq
    · exact Or.inr ⟨hold, hdominates⟩
  apply eq_of_counts
  · intro name
    rw [mem_mergedVv]
    constructor
    · rintro ⟨head, hhead, hname⟩
      rcases hcases head hhead with rfl | ⟨hold, _⟩
      · exact hname
      · rw [hvv, increment, Std.ExtTreeMap.mem_insert]
        exact Or.inr (mem_mergedVv.mpr ⟨head, hold, hname⟩)
    · exact fun hname => ⟨entry, hentry, hname⟩
  · intro name
    refine Nat.le_antisymm (count_mergedVv_le fun head hhead => ?_)
      (le_count_mergedVv hentry name)
    rcases hcases head hhead with rfl | ⟨_, hdominates⟩
    · exact Nat.le_refl _
    · exact dominates_iff.mp hdominates name

/-- Whatever the logs are, the merge shows an operation that was appended. -/
theorem showsOp_of_append (happend : folder.append device timestamp op = some (entry, after))
    (hroom : folder.HasRoom device) : ∃ merged, ShowsOp folder after device op merged := by
  have happend := append_eq happend hroom
  obtain ⟨hdevice, _, _⟩ := appendNoteOp_cases happend
  obtain ⟨_, _, _, hop, _⟩ := ownLog_of_append happend
  refine ⟨_, merge_eq_of_append happend, ?_, ?_, (mergedVv_of_append happend).symm, hdevice, ?_⟩
  · rintro note rfl
    simp only [resolvedNote, hop]
  · rintro deletedAt rfl hupsert
    have hsome := latestUpsert_isSome_iff.mpr
      (hasUpsert_of_append folder.names happend hupsert)
    obtain ⟨note, hnote⟩ := Option.isSome_iff_exists.mp hsome
    simp only [resolvedNote, hop, hnote, Option.map_some]
    exact ⟨_, rfl, rfl⟩
  · have hone := length_frontier_le happend
    exact decide_eq_false (Nat.not_lt.mpr hone)

theorem increasing_compactOwnLog {log : NoteLog} (hlog : Increasing log) :
    Increasing (compactOwnLog log) :=
  List.Pairwise.sublist (compactOwnLog_sublist log) hlog

/-- The appended entry lies above the own log. -/
theorem increasing_append (hown : Increasing (ownNoteLog folder.dir device))
    (happend : folder.append device timestamp op = some (entry, after))
    (hroom : folder.HasRoom device) : Increasing (ownNoteLog after.dir device) := by
  obtain ⟨_, hvv, log, hdir, hlog⟩ := appendNoteOp_cases (append_eq happend hroom)
  have hlonger : Increasing (ownNoteLog folder.dir device ++ [entry]) := by
    refine List.pairwise_append.mpr ⟨hown, List.pairwise_singleton _ _, ?_⟩
    intro earlier hearlier later hlater
    obtain rfl := List.mem_singleton.mp hlater
    have hnonempty : ownNoteLog folder.dir device ≠ [] := List.ne_nil_of_mem hearlier
    obtain ⟨head, hlast⟩ := Option.ne_none_iff_exists'.mp
      (fun hnone => hnonempty (List.getLast?_eq_none_iff.mp hnone))
    have hmem : head ∈ heads (readNoteLogs folder.dir) := by
      cases hfile : folder.dir.file? device with
      | none =>
          rw [ownNoteLog, hfile] at hlast
          cases hlast
      | some file =>
          rw [ownNoteLog, hfile] at hlast
          exact List.mem_filterMap.mpr
            ⟨file, mem_readNoteLogs (Directory.file?_mem hfile), hlast⟩
    have hbelow : dominates head.vv earlier.vv = true := by
      obtain ⟨front, hfront⟩ := List.getLast?_eq_some_iff.mp hlast
      rw [hfront] at hearlier hown
      rcases List.mem_append.mp hearlier with hfirst | hsame
      · exact ((List.pairwise_append.mp hown).2.2 earlier hfirst head
          (List.mem_singleton_self head)).1
      · rw [List.mem_singleton.mp hsame]
        exact dominates_refl head.vv
    have hcounts : ∀ name, count earlier.vv name ≤
        count (mergedVv (heads (readNoteLogs folder.dir))) name := fun name =>
      Nat.le_trans (dominates_iff.mp hbelow name) (le_count_mergedVv hmem name)
    rw [hvv]
    refine ⟨increment_dominates_of_dominates (dominates_iff.mpr hcounts) device, ?_⟩
    rw [Bool.eq_false_iff]
    intro habove
    have hle := dominates_iff.mp habove device
    rw [count_increment_self] at hle
    have hcount := hcounts device
    omega
  rw [hdir, ownNoteLog_writeNoteLog]
  rcases hlog with rfl | rfl
  · exact hlonger
  · exact increasing_compactOwnLog hlonger

theorem step_increasing {next : LogFolder} {action : Step}
    (hown : Increasing (ownNoteLog folder.dir device)) (hfits : Fits device folder action)
    (hstep : step device folder action = some next) :
    Increasing (ownNoteLog next.dir device) := by
  cases action with
  | append timestamp op =>
      obtain ⟨⟨entry, after⟩, happend, rfl⟩ := Option.map_eq_some_iff.mp hstep
      exact increasing_append hown happend hfits
  | compact =>
      obtain rfl := Option.some.inj hstep
      rw [write, ownNoteLog_writeNoteLog]
      exact increasing_compactOwnLog hown
  | peers changed =>
      obtain ⟨hfile, heq⟩ := Option.ite_none_right_eq_some.mp hstep
      cases heq
      rw [ownNoteLog, hfile]
      exact hown

/-- Among any logs an append takes effect, and in every run the vectors of the own
log increase, as long as the own counter does not wrap around. -/
theorem append_takesEffect (device : String) :
    (∀ folder timestamp op entry after,
      append folder device timestamp op = some (entry, after) → folder.HasRoom device →
        ∃ merged, ShowsOp folder after device op merged) ∧
      ∀ start steps final, Increasing (ownNoteLog start.dir device) →
        runAll (step device) start steps = some final →
        MeetsAll (step device) (Fits device) start steps →
          Increasing (ownNoteLog final.dir device) := by
  constructor
  · intro folder timestamp op entry after happend hroom
    exact showsOp_of_append happend hroom
  · intro start steps final hstart hrun hmeets
    have hkept : ∀ folder action next, Increasing (ownNoteLog folder.dir device) →
        Fits device folder action → step device folder action = some next →
          Increasing (ownNoteLog next.dir device) :=
      fun _ _ _ hown hfits hstep => step_increasing hown hfits hstep
    exact runAll_invariant_of_meetsAll (step device) hkept hstart hmeets hrun

end LogFolder

namespace WrappedCounter

open LogFolder

/-- A note as a device wrote it. -/
def written (body : String) : Note where
  id := 1
  title := "n"
  body := body
  notebookId := 0
  isTodo := false
  todoDue := none
  todoCompleted := none
  createdAt := 1
  updatedAt := 1
  deletedAt := none
  «alias» := none
  bookmarks := []
  links := []
  vv := ∅
  lastWriter := ""
  isPinned := false
  isStarred := false
  sortKey := 0

def exhausted : NoteLogEntry :=
  ⟨.ofList [("C", MAX_COUNTER), ("P", 1)], 9, "P", .upsert (written "old")⟩

def peerFolder : LogFolder := ⟨[("P", [exhausted])], by decide⟩

def emptyFolder : LogFolder := ⟨[], List.nodup_nil⟩

/-- Another device has written at a later time than that of the append. -/
def laterFolder : LogFolder :=
  ⟨[("P", [⟨.ofList [("P", 1)], 9, "P", .upsert (written "old")⟩])], by decide⟩

theorem append_takesEffect_first :
    (∃ entry after merged,
      append laterFolder "A" 3 (.upsert (written "new")) = some (entry, after) ∧
        ShowsOp laterFolder after "A" (.upsert (written "new")) merged) ∧
      ∃ final, runAll (step "A") emptyFolder
          [.append 2 (.upsert (written "old")), .append 1 (.tombstone 1), .compact] = some final ∧
        Increasing (ownNoteLog final.dir "A") := by
  obtain ⟨htakes, hincreasing⟩ := append_takesEffect "A"
  constructor
  · have happend : (append laterFolder "A" 3 (.upsert (written "new"))).isSome = true := by decide
    obtain ⟨⟨entry, after⟩, happend⟩ := Option.isSome_iff_exists.mp happend
    have hroom : laterFolder.HasRoom "A" := by decide
    obtain ⟨merged, hshows⟩ := htakes laterFolder 3 _ entry after happend hroom
    exact ⟨entry, after, merged, happend, hshows⟩
  · have hrun : (runAll (step "A") emptyFolder
        [.append 2 (.upsert (written "old")), .append 1 (.tombstone 1), .compact]).isSome =
          true := by decide
    obtain ⟨final, hrun⟩ := Option.isSome_iff_exists.mp hrun
    have hstart : Increasing (ownNoteLog emptyFolder.dir "A") := List.Pairwise.nil
    exact ⟨final, hrun, hincreasing _ _ _ hstart hrun (by decide)⟩

/-- The append resets the counter, and the note stays as the peer had it. -/
theorem wrapped_append_hidden :
    ¬ ∀ (device : String) (folder : LogFolder) (timestamp : DateTime) (op : NoteOp)
      (entry : NoteLogEntry) (after : LogFolder),
      append folder device timestamp op = some (entry, after) →
        ∃ merged, ShowsOp folder after device op merged := by
  intro hclaim
  have happended : (append peerFolder "C" 10 (.upsert (written "new"))).any (fun appended =>
      (merge (readNoteLogs appended.2.dir)).any fun merged =>
        decide (merged.note.map Note.body = some "old")) = true := by decide +kernel
  obtain ⟨⟨entry, after⟩, happend, hhidden⟩ := (Option.any_eq_true _ _).mp happended
  obtain ⟨shown, hmerge, hbody⟩ := (Option.any_eq_true _ _).mp hhidden
  obtain ⟨merged, hshows⟩ := hclaim "C" peerFolder 10 _ entry after happend
  obtain rfl := Option.some.inj (hmerge.symm.trans hshows.merge)
  have hold := of_decide_eq_true hbody
  rw [hshows.upsert _ rfl] at hold
  exact absurd hold (by decide)

end WrappedCounter

end Keeplin
