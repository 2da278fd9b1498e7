/-
Which recorded version a revert takes: both backends tell their versions up to a limit,
and the first told that is not after the instant is taken.
-/
import Keeplin.Backlinks
import Keeplin.InteropStorage
import Keeplin.NotebookCapacity

namespace Keeplin

/-- A line of a text without its terminator. -/
def stripLineEnd (line : Text) : Text :=
  match line.reverse with
  | '\n' :: '\r' :: rest => rest.reverse
  | '\n' :: rest => rest.reverse
  | _ => line

/-- The entries of every journal of the listing, each with the device of its journal. -/
def readAllGlobalEntries (format : LineFormat) (listing : LogListing) :
    List (String × LogEntry) :=
  listing.flatMap fun file =>
    ((Lines.lines '\n' (Interop.fromUtf8Lossy file.2)).filterMap fun line =>
        let line := stripLineEnd line
        if trim line = [] ∨ (format.epochHeader line).isSome then none
        else (format.logEntry line).map (Prod.mk file.1))

/-- What an entry of a journal tells of a notebook. -/
def LogEntry.notebookVersion? (id : Uuid) (entry : LogEntry) : Option (Option Notebook) :=
  if entry.entityType = .notebook ∧ entry.entityId = id then
    match entry.operation with
    | .create | .update =>
        match entry.data with
        | .notebook notebook => some (some notebook)
        | _ => none
    | .delete => some none
    | _ => none
  else none

/-- The versions of a notebook that the journals hold. -/
def globalVersions (id : Uuid) (entries : List (String × LogEntry)) :
    List (EntityVersion Notebook) :=
  entries.filterMap fun entry =>
    (entry.2.notebookVersion? id).map fun entity => ⟨entry.2.timestamp, entry.1, entity⟩

def fsNotebookHistory (format : LineFormat) (id : Uuid) (limit : Nat) (listing : LogListing) :
    List (EntityVersion Notebook) :=
  sortAndCap (globalVersions id (readAllGlobalEntries format listing)) limit

/-- The versions of a note that its logs hold. -/
def FsTree.noteVersions (id : Uuid) (tree : FsTree) : List (EntityVersion Note) :=
  (tree.noteLogs id).flatten.map fun entry =>
    ⟨entry.timestamp, entry.deviceId, entry.upsert?.map Prod.snd⟩

/-- The versions of an entity in the order they were recorded. -/
def Db.recordedVersions {T : Type} (version? : Change → Option (Option T)) (db : Db) :
    List (EntityVersion T) :=
  db.entityChanges.filterMap fun entry =>
    (version? entry.change).map fun entity => ⟨entry.changedAt, db.deviceId, entity⟩

section

variable {T : Type} {recorded told versions : List (EntityVersion T)} {at_ : DateTime}

/-- The chosen version is a newest one not after the instant, if there is one. -/
def Selects (recorded : List (EntityVersion T)) (at_ : DateTime)
    (chosen : Option (EntityVersion T)) : Prop :=
  (∃ version ∈ recorded, version.timestamp ≤ at_) →
    ∃ version ∈ chosen, version ∈ recorded ∧ version.timestamp ≤ at_ ∧
      ∀ other ∈ recorded, other.timestamp ≤ at_ → other.timestamp ≤ version.timestamp

/-- The versions told before the first that is not after the instant. -/
def toldBefore (at_ : DateTime) (told : List (EntityVersion T)) : List (EntityVersion T) :=
  told.takeWhile fun version => at_ < version.timestamp

/-- The first version told that is not after the instant is a newest one. -/
def FirstIsNewest (at_ : DateTime) (told : List (EntityVersion T)) : Prop :=
  ∀ first ∈ stateAt told at_, ∀ other ∈ told,
    other.timestamp ≤ at_ → other.timestamp ≤ first.timestamp

theorem stateAt_eq_none :
    stateAt told at_ = none ↔ ¬ ∃ version ∈ told, version.timestamp ≤ at_ := by
  rw [stateAt, List.find?_eq_none]
  simp only [decide_eq_true_eq, not_exists, not_and]

theorem mem_of_stateAt {version : EntityVersion T} (hchosen : stateAt told at_ = some version) :
    version ∈ told ∧ version.timestamp ≤ at_ :=
  ⟨List.mem_of_find?_eq_some hchosen, by simpa using List.find?_some hchosen⟩

theorem stateAt_cons_of_le {version : EntityVersion T} (hle : version.timestamp ≤ at_) :
    stateAt (version :: told) at_ = some version :=
  List.find?_cons_of_pos (by simpa using hle)

theorem stateAt_cons_of_lt {version : EntityVersion T} (hlater : at_ < version.timestamp) :
    stateAt (version :: told) at_ = stateAt told at_ :=
  List.find?_cons_of_neg (by simpa using hlater)

theorem toldBefore_cons_of_le {version : EntityVersion T} (hle : version.timestamp ≤ at_) :
    toldBefore at_ (version :: told) = [] :=
  List.takeWhile_cons_of_neg (by simpa using hle)

theorem toldBefore_cons_of_lt {version : EntityVersion T} (hlater : at_ < version.timestamp) :
    toldBefore at_ (version :: told) = version :: toldBefore at_ told :=
  List.takeWhile_cons_of_pos (by simpa using hlater)

/-- Of the first versions told one is chosen if it comes soon enough. -/
theorem stateAt_take (told : List (EntityVersion T)) (at_ : DateTime) (cap : Nat) :
    stateAt (told.take cap) at_ =
      if (toldBefore at_ told).length < cap then stateAt told at_ else none := by
  induction told generalizing cap with
  | nil => simp [stateAt]
  | cons version rest ih =>
      cases cap with
      | zero => simp [stateAt]
      | succ cap =>
          rw [List.take_succ_cons]
          rcases le_or_gt version.timestamp at_ with hle | hlater
          · simp [stateAt_cons_of_le hle, toldBefore_cons_of_le hle]
          · simp only [stateAt_cons_of_lt hlater, toldBefore_cons_of_lt hlater, ih,
              List.length_cons, Nat.add_lt_add_iff_right]

/-- A newest version is chosen of those told first just when one not after the instant is
told soon enough and the first of them is a newest one. -/
theorem selects_take_iff (told : List (EntityVersion T)) (at_ : DateTime) (cap : Nat) :
    Selects told at_ (stateAt (told.take cap) at_) ↔
      ((∃ version ∈ told, version.timestamp ≤ at_) →
        (toldBefore at_ told).length < cap ∧ FirstIsNewest at_ told) := by
  refine forall_congr' fun hsome => ?_
  obtain ⟨first, hfirst⟩ : ∃ first, stateAt told at_ = some first :=
    Option.ne_none_iff_exists'.mp fun hnone => stateAt_eq_none.mp hnone hsome
  obtain ⟨hmem, hle⟩ := mem_of_stateAt hfirst
  rw [stateAt_take]
  constructor
  · rintro ⟨version, hversion, -, -, hnewest⟩
    split at hversion
    · next hsoon =>
        refine ⟨hsoon, fun other hother => ?_⟩
        rw [hother] at hversion
        rwa [Option.some.inj hversion]
    · contradiction
  · rintro ⟨hsoon, hnewest⟩
    rw [if_pos hsoon]
    exact ⟨first, hfirst, hmem, hle, hnewest first hfirst⟩

theorem Selects.of_mem_iff {chosen : Option (EntityVersion T)}
    (hmem : ∀ version, version ∈ told ↔ version ∈ recorded) :
    Selects told at_ chosen ↔ Selects recorded at_ chosen := by
  simp only [Selects, hmem]

theorem pairwise_sortVersions (recorded : List (EntityVersion T)) :
    (recorded.mergeSort fun first second =>
      second.timestamp < first.timestamp ∨
        (second.timestamp = first.timestamp ∧ second.deviceId ≤ first.deviceId)).Pairwise
      fun first second => second.timestamp ≤ first.timestamp := by
  have hsorted := @List.pairwise_mergeSort _ (fun first second : EntityVersion T =>
      decide (second.timestamp < first.timestamp ∨
        (second.timestamp = first.timestamp ∧ second.deviceId ≤ first.deviceId)))
    ?_ ?_ recorded
  · refine hsorted.imp fun {first second} hle => ?_
    rcases of_decide_eq_true hle with hlt | ⟨heq, -⟩
    · exact le_of_lt hlt
    · exact le_of_eq heq
  · intro first second third hfirst hsecond
    rw [decide_eq_true_iff] at hfirst hsecond ⊢
    rcases hfirst with hlt | ⟨heq, hdevice⟩
    · rcases hsecond with hlater | ⟨hsame, -⟩
      · exact .inl (lt_trans hlater hlt)
      · exact .inl (hsame ▸ hlt)
    · rcases hsecond with hlater | ⟨hsame, hthird⟩
      · exact .inl (heq ▸ hlater)
      · exact .inr ⟨hsame.trans heq, String.le_trans hthird hdevice⟩
  · intro first second
    rw [Bool.or_eq_true, decide_eq_true_iff, decide_eq_true_iff]
    rcases lt_trichotomy first.timestamp second.timestamp with hlt | heq | hlt
    · exact .inr (.inl hlt)
    · rcases String.le_total first.deviceId second.deviceId with hdevice | hdevice
      · exact .inr (.inr ⟨heq, hdevice⟩)
      · exact .inl (.inr ⟨heq.symm, hdevice⟩)
    · exact .inl (.inl hlt)

theorem firstIsNewest_of_pairwise
    (hsorted : told.Pairwise fun first second => second.timestamp ≤ first.timestamp) :
    FirstIsNewest at_ told := by
  induction told with
  | nil => exact fun first hfirst => by contradiction
  | cons version rest ih =>
      obtain ⟨hversion, hrest⟩ := List.pairwise_cons.mp hsorted
      intro first hfirst other hother hle
      rcases le_or_gt version.timestamp at_ with hnow | hlater
      · rw [stateAt_cons_of_le hnow] at hfirst
        obtain rfl := Option.some.inj hfirst
        rcases List.mem_cons.mp hother with rfl | htail
        · exact le_refl _
        · exact hversion other htail
      · rw [stateAt_cons_of_lt hlater] at hfirst
        rcases List.mem_cons.mp hother with rfl | htail
        · exact absurd hle (not_le.mpr hlater)
        · exact ih hrest first hfirst other htail hle

theorem length_toldBefore_of_pairwise
    (hsorted : told.Pairwise fun first second => second.timestamp ≤ first.timestamp) :
    (toldBefore at_ told).length = told.countP fun version => at_ < version.timestamp := by
  induction told with
  | nil => rfl
  | cons version rest ih =>
      obtain ⟨hversion, hrest⟩ := List.pairwise_cons.mp hsorted
      rcases le_or_gt version.timestamp at_ with hnow | hlater
      · rw [toldBefore_cons_of_le hnow, List.countP_cons_of_neg (by simpa using hnow),
          List.length_nil]
        refine (List.countP_eq_zero.mpr fun other hother => ?_).symm
        simpa using le_trans (hversion other hother) hnow
      · rw [toldBefore_cons_of_lt hlater, List.length_cons, ih hrest,
          List.countP_cons_of_pos (by simpa using hlater)]

/-- Told newest first, a newest version is chosen just when fewer versions than the limit
are later than the instant. -/
theorem selects_sortAndCap_iff (recorded : List (EntityVersion T)) (at_ : DateTime)
    (limit : Nat) :
    Selects recorded at_ (stateAt (sortAndCap recorded limit) at_) ↔
      ((∃ version ∈ recorded, version.timestamp ≤ at_) →
        (recorded.countP fun version => at_ < version.timestamp) < historyCap limit) := by
  have hsorted := pairwise_sortVersions recorded
  have hmem : ∀ version, version ∈ (recorded.mergeSort fun first second =>
      second.timestamp < first.timestamp ∨
        (second.timestamp = first.timestamp ∧ second.deviceId ≤ first.deviceId)) ↔
      version ∈ recorded := fun version => List.mem_mergeSort
  rw [sortAndCap, ← Selects.of_mem_iff hmem, selects_take_iff,
    length_toldBefore_of_pairwise hsorted, (List.mergeSort_perm recorded _).countP_eq]
  simp only [hmem, firstIsNewest_of_pairwise hsorted, and_true]

theorem entityHistory_local (version? : Change → Option (Option T)) (limit : Nat) (db : Db) :
    db.entityHistory version? none limit =
      (db.recordedVersions version?).reverse.take (historyCap limit) := rfl

/-- The last version recorded that is not after the instant is chosen, and it is a newest
one just when no version recorded before it is newer and not after the instant. -/
theorem selects_entityHistory_iff (version? : Change → Option (Option T)) (db : Db)
    (at_ : DateTime) (limit : Nat) :
    Selects (db.recordedVersions version?) at_
        (stateAt (db.entityHistory version? none limit) at_) ↔
      ((∃ version ∈ db.recordedVersions version?, version.timestamp ≤ at_) →
        (toldBefore at_ (db.recordedVersions version?).reverse).length < historyCap limit ∧
          FirstIsNewest at_ (db.recordedVersions version?).reverse) := by
  have hmem : ∀ version, version ∈ (db.recordedVersions version?).reverse ↔
      version ∈ db.recordedVersions version? := fun version => List.mem_reverse
  rw [entityHistory_local, ← Selects.of_mem_iff hmem, selects_take_iff]
  simp only [hmem]

/-- Versions recorded in the order of time. -/
def Timely (recorded : List (EntityVersion T)) : Prop :=
  recorded.Pairwise fun earlier later => earlier.timestamp ≤ later.timestamp

/-- Versions told newest first. -/
def NewestFirst (told : List (EntityVersion T)) : Prop :=
  told.Pairwise fun earlier later => later.timestamp ≤ earlier.timestamp

/-- If a version is not after the instant, fewer than a revert scans are later. -/
def WithinScan (recorded : List (EntityVersion T)) (at_ : DateTime) : Prop :=
  (∃ version ∈ recorded, version.timestamp ≤ at_) →
    (recorded.countP fun version => at_ < version.timestamp) < REVERT_SCAN_LIMIT

/-- A journal recorded in the order of time is told newest first. -/
theorem selects_of_timely (version? : Change → Option (Option T)) (db : Db) (at_ : DateTime)
    (htimely : Timely (db.recordedVersions version?)) :
    Selects (db.recordedVersions version?) at_
        (stateAt (db.entityHistory version? none REVERT_SCAN_LIMIT) at_) ↔
      WithinScan (db.recordedVersions version?) at_ := by
  have hsorted := List.pairwise_reverse.mpr htimely
  rw [selects_entityHistory_iff, length_toldBefore_of_pairwise hsorted, List.countP_reverse,
    and_iff_left (firstIsNewest_of_pairwise hsorted)]
  rfl

/-- The answer of a server is told as it came. -/
theorem selects_of_newestFirst (version? : Change → Option (Option T)) (db : Db)
    (at_ : DateTime) (limit : Nat) {served : List (EntityVersion T)}
    (hserved : NewestFirst served) :
    Selects served at_ (stateAt (db.entityHistory version? (some served) limit) at_) := by
  have hall : db.entityHistory version? (some served) limit = served.take (served.length + 1) :=
    (List.take_of_length_le (Nat.le_succ _)).symm
  have hsoon : (toldBefore at_ served).length < served.length + 1 :=
    Nat.lt_succ_of_le (List.takeWhile_prefix _).length_le
  rw [hall, selects_take_iff]
  exact fun _ => ⟨hsoon, firstIsNewest_of_pairwise hserved⟩

end

/-- What a revert takes of the history of a database: of its own journal, and of what a
server tells. -/
structure SelectsFromDb {T : Type} (version? : Change → Option (Option T)) (db : Db)
    (at_ : DateTime) : Prop where
  journal : Timely (db.recordedVersions version?) →
    (Selects (db.recordedVersions version?) at_
        (stateAt (db.entityHistory version? none REVERT_SCAN_LIMIT) at_) ↔
      WithinScan (db.recordedVersions version?) at_)
  served : ∀ served, NewestFirst served → Selects served at_
    (stateAt (db.entityHistory version? (some served) REVERT_SCAN_LIMIT) at_)

/-- A revert takes a newest version not after the instant just when it scans back to it, of
the notes and notebooks of either backend. -/
theorem revert_selects_iff (at_ : DateTime) (id : Uuid) :
    (∀ tree : FsTree, Selects (tree.noteVersions id) at_
        (stateAt (tree.noteHistory id REVERT_SCAN_LIMIT) at_) ↔
      WithinScan (tree.noteVersions id) at_) ∧
    (∀ (format : LineFormat) (listing : LogListing),
      Selects (globalVersions id (readAllGlobalEntries format listing)) at_
          (stateAt (fsNotebookHistory format id REVERT_SCAN_LIMIT listing) at_) ↔
        WithinScan (globalVersions id (readAllGlobalEntries format listing)) at_) ∧
    ∀ db : Db, SelectsFromDb (Change.noteVersion? id) db at_ ∧
      SelectsFromDb (Change.notebookVersion? id) db at_ := by
  refine ⟨fun tree => ?_, fun format listing => ?_, fun db => ⟨⟨?_, ?_⟩, ⟨?_, ?_⟩⟩⟩
  · exact selects_sortAndCap_iff (tree.noteVersions id) at_ REVERT_SCAN_LIMIT
  · exact selects_sortAndCap_iff (globalVersions id (readAllGlobalEntries format listing)) at_
      REVERT_SCAN_LIMIT
  · exact selects_of_timely (Change.noteVersion? id) db at_
  · exact fun served => selects_of_newestFirst (Change.noteVersion? id) db at_ REVERT_SCAN_LIMIT
  · exact selects_of_timely (Change.notebookVersion? id) db at_
  · exact fun served =>
      selects_of_newestFirst (Change.notebookVersion? id) db at_ REVERT_SCAN_LIMIT

namespace HistoryWitness

def edit (ts : DateTime) : EntityChange := ⟨ts, .noteUpdate (Note.new 1 "" "" ts)⟩

def version (ts : DateTime) : EntityVersion Note := ⟨ts, "A", some (Note.new 1 "" "" ts)⟩

def journalled (changes : List EntityChange) : Db :=
  { Db.empty "A" with entityChanges := changes }

theorem recordedVersions_journalled (instants : List DateTime) :
    (journalled (instants.map edit)).recordedVersions (Change.noteVersion? 1) =
      instants.map version := by
  show (instants.map edit).filterMap (fun entry : EntityChange =>
    (entry.change.noteVersion? 1).map fun entity =>
      (⟨entry.changedAt, "A", entity⟩ : EntityVersion Note)) = _
  induction instants with
  | nil => rfl
  | cons ts rest ih => exact congrArg (List.cons (version ts)) ih

/-- A note that was edited three times is found as it was after the second. -/
theorem revert_selects_journal :
    Selects ((journalled ([1, 2, 3].map edit)).recordedVersions (Change.noteVersion? 1)) 2
        (stateAt ((journalled ([1, 2, 3].map edit)).entityHistory (Change.noteVersion? 1) none
          REVERT_SCAN_LIMIT) 2) ∧
    Selects ([3, 2, 1].map version) 2
      (stateAt ((journalled []).entityHistory (Change.noteVersion? 1)
        (some ([3, 2, 1].map version)) REVERT_SCAN_LIMIT) 2) := by
  refine ⟨?_, ?_⟩
  · refine (((revert_selects_iff 2 1).2.2 (journalled ([1, 2, 3].map edit))).1.journal ?_).mpr ?_
    · rw [recordedVersions_journalled]
      exact List.pairwise_map.mpr (by decide)
    · rw [recordedVersions_journalled]
      exact fun _ => by decide
  · refine ((revert_selects_iff 2 1).2.2 (journalled [])).1.served ([3, 2, 1].map version) ?_
    exact List.pairwise_map.mpr (by decide)

/-- After ten thousand later edits the first version is not found, and after an edit with a
clock that was set back the version of the earlier reading is taken. -/
theorem revert_misses :
    (¬ Selects ((journalled ((0 :: List.replicate 10000 1).map edit)).recordedVersions
          (Change.noteVersion? 1)) 0
        (stateAt ((journalled ((0 :: List.replicate 10000 1).map edit)).entityHistory
          (Change.noteVersion? 1) none REVERT_SCAN_LIMIT) 0)) ∧
    ¬ Selects ((journalled ([5, 3].map edit)).recordedVersions (Change.noteVersion? 1)) 10
        (stateAt ((journalled ([5, 3].map edit)).entityHistory (Change.noteVersion? 1) none
          REVERT_SCAN_LIMIT) 10) := by
  constructor
  · have htimely : Timely ((journalled ((0 :: List.replicate 10000 1).map edit)).recordedVersions
        (Change.noteVersion? 1)) := by
      rw [recordedVersions_journalled]
      refine List.pairwise_map.mpr (List.pairwise_cons.mpr ⟨?_, ?_⟩)
      · intro ts hts
        rw [List.eq_of_mem_replicate hts]
        decide
      · exact List.pairwise_replicate.mpr (.inr (le_refl _))
    rw [selects_of_timely _ _ _ htimely, recordedVersions_journalled]
    intro hwithin
    have hcount := hwithin ⟨version 0, List.mem_map_of_mem List.mem_cons_self, le_refl _⟩
    rw [List.countP_map, List.countP_cons_of_neg (by decide), List.countP_replicate,
      if_pos (by decide)] at hcount
    exact lt_irrefl _ hcount
  · rw [selects_entityHistory_iff, recordedVersions_journalled]
    intro hwithin
    obtain ⟨-, hfirst⟩ := hwithin ⟨version 5, by simp, by decide⟩
    exact absurd (hfirst (version 3) rfl (version 5) (by simp) (by decide)) (by decide)

end HistoryWitness

end Keeplin
