/-
What opening a store refuses.  The checks come before the first effect, so that a
directory that is refused stays as it was, and one that is taken for a fresh store
holds nothing but what a fresh store may hold.
-/
import Keeplin.Startup

namespace Keeplin

open DiskAction

namespace DiskAction

variable {A B : Type} {action : DiskAction A} {next : A → DiskAction B} {disk : DataDir}

/-- A step that fails only with what the disk answers. -/
def FailsByIO (action : DiskAction A) : Prop :=
  ∀ disk failure, (action disk).2 = .error failure → failure = .io

theorem failsByIO_done (value : A) : FailsByIO (.done value) := by
  intro disk failure hfailure
  contradiction

theorem FailsByIO.bind (hfirst : FailsByIO action) (hnext : ∀ value, FailsByIO (next value)) :
    FailsByIO (action.bind next) := by
  intro disk failure hfailure
  cases hresult : (action disk).2 with
  | error found =>
      rw [bind_of_error hresult] at hfailure
      rw [← Except.error.inj hfailure]
      exact hfirst disk found hresult
  | ok value =>
      rw [bind_of_ok hresult] at hfailure
      exact hnext value _ failure hfailure

/-- A step without effects that succeeds leaves the disk to the next. -/
theorem bind_of_no_effects {value : A} (haction : action disk = ([], .ok value)) :
    action.bind next disk = next value disk := by
  have hvalue : (action disk).2 = .ok value := by rw [haction]
  rw [bind_of_ok hvalue, haction]
  rfl

end DiskAction

theorem failsByIO_createDir (path : DirPath) : FailsByIO (createDir path) := by
  intro disk failure hfailure
  simp only [createDir] at hfailure
  split at hfailure
  · contradiction
  · exact (Except.error.inj hfailure).symm
  · contradiction

theorem failsByIO_createDirAll (path : DirPath) : FailsByIO (createDirAll path) := by
  induction path with
  | nil => exact failsByIO_createDir []
  | cons name parent ih => exact ih.bind fun _ => failsByIO_createDir (name :: parent)

theorem failsByIO_inTurn {steps : List (DiskAction Unit)}
    (hsteps : ∀ step ∈ steps, FailsByIO step) : FailsByIO (inTurn steps) := by
  induction steps with
  | nil => exact failsByIO_done ()
  | cons step rest ih =>
      obtain ⟨hstep, hrest⟩ := List.forall_mem_cons.mp hsteps
      exact hstep.bind fun _ => ih hrest

theorem failsByIO_sweepOrphanTmpFiles : FailsByIO sweepOrphanTmpFiles := by
  intro disk failure hfailure
  refine failsByIO_inTurn (fun step hstep => ?_) disk failure hfailure
  obtain ⟨folder, -, rfl⟩ := List.mem_map.mp hstep
  intro found other hother
  contradiction

theorem failsByIO_writeFile (path : DirPath) (content : Text) :
    FailsByIO (writeFile path content) := by
  intro disk failure hfailure
  simp only [writeFile] at hfailure
  split at hfailure
  · exact (Except.error.inj hfailure).symm
  · contradiction

theorem decode_error {bytes : List UInt8} {failure : StorageError}
    (hfailure : decode bytes = .error failure) : failure = .io := by
  rw [decode] at hfailure
  split at hfailure
  · contradiction
  · exact (Except.error.inj hfailure).symm

theorem failsByIO_readFile (path : DirPath) : FailsByIO (readFile path) := by
  intro disk failure hfailure
  simp only [readFile, reading] at hfailure
  cases hfile : disk.file? path with
  | none =>
      rw [hfile] at hfailure
      exact (Except.error.inj hfailure).symm
  | some entry =>
      rw [hfile] at hfailure
      cases entry with
      | dir => exact (Except.error.inj hfailure).symm
      | file content => exact decode_error hfailure

theorem failsByIO_readOrCreateDeviceId (newId : Text) :
    FailsByIO (readOrCreateDeviceId newId) := by
  intro disk failure hfailure
  simp only [readOrCreateDeviceId] at hfailure
  split at hfailure
  · exact (failsByIO_readFile deviceIdPath).bind (fun id => failsByIO_done (trim id))
      disk failure hfailure
  · exact (failsByIO_writeFile deviceIdPath newId).bind (fun _ => failsByIO_done newId)
      disk failure hfailure

/-- The checks have no effect on the disk. -/
theorem checkFresh_no_effects (fresh : Bool) (disk : DataDir) : (checkFresh fresh disk).1 = [] := by
  cases fresh with
  | false => rfl
  | true =>
      rw [checkFresh, if_pos rfl, DiskAction.bind]
      cases hentry : unexpectedFreshStoreEntry disk with
      | error failure => simp [reading, hentry]
      | ok found => cases found <;> simp [reading, hentry, fail, done]

theorem checkFresh_true {disk : DataDir} (hchecked : (checkFresh true disk).2 = .ok ()) :
    unexpectedFreshStoreEntry disk = .ok none := by
  rw [checkFresh, if_pos rfl] at hchecked
  obtain ⟨found, hfound, hnext⟩ := bind_eq_ok.mp hchecked
  cases found with
  | none => exact hfound
  | some path => contradiction

theorem ensureFormatVersion_no_effects (fresh : Bool) (disk : DataDir) :
    (ensureFormatVersion fresh disk).1 = [] := by
  cases fresh with
  | true => rfl
  | false =>
      have hread : (readFile formatVersionPath disk).1 = [] := rfl
      rw [ensureFormatVersion, if_neg Bool.false_ne_true]
      cases hstamp : (readFile formatVersionPath disk).2 with
      | error failure => rw [bind_of_error hstamp, hread]
      | ok stamp =>
          rw [bind_of_ok hstamp, hread, List.nil_append]
          cases parseU32 (trim stamp) with
          | none => rfl
          | some current =>
              by_cases hcurrent : current = formatVersion
              · simp only [hcurrent, ↓reduceIte]
                rfl
              · simp only [hcurrent, ↓reduceIte]
                rfl

/-- The stamp of the format that this build writes. -/
def IsCurrentStamp (entry : DirEntry) : Prop :=
  ∃ content stamp, entry = .file content ∧ decode content = .ok stamp ∧
    parseU32 (trim stamp) = some formatVersion

theorem isCurrentStamp_of_ensured {disk : DataDir} {entry : DirEntry}
    (hentry : disk.file? formatVersionPath = some entry)
    (hensured : (ensureFormatVersion false disk).2 = .ok ()) : IsCurrentStamp entry := by
  rw [ensureFormatVersion, if_neg Bool.false_ne_true] at hensured
  obtain ⟨stamp, hstamp, hnext⟩ := bind_eq_ok.mp hensured
  simp only [readFile, reading, hentry] at hstamp
  cases entry with
  | dir => contradiction
  | file content =>
      cases hparse : parseU32 (trim stamp) with
      | none =>
          rw [hparse] at hnext
          contradiction
      | some current =>
          rw [hparse] at hnext
          by_cases hcurrent : current = formatVersion
          · exact ⟨content, stamp, rfl, hstamp, hcurrent ▸ hparse⟩
          · simp only [hcurrent, ↓reduceIte] at hnext
            contradiction

namespace FsBackend

variable {newId : Text} {disk : DataDir}

/-- Either a check fails, and nothing has been done, or the rest of the opening
comes next. -/
theorem new_cases (newId : Text) (disk : DataDir) :
    (∃ failure, new newId disk = ([], .error failure)) ∨
      ((checkFresh (!disk.holds formatVersionPath) disk).2 = .ok () ∧
        (ensureFormatVersion (!disk.holds formatVersionPath) disk).2 = .ok () ∧
        ∃ rest : DiskAction Text, FailsByIO rest ∧ new newId disk = rest disk) := by
  simp only [new]
  generalize hfresh : (!disk.holds formatVersionPath) = fresh
  cases hcheck : (checkFresh fresh disk).2 with
  | error failure =>
      exact .inl ⟨failure, by rw [bind_of_error hcheck, checkFresh_no_effects]⟩
  | ok checked =>
      rw [bind_of_no_effects (Prod.ext (checkFresh_no_effects fresh disk) hcheck)]
      cases hversion : (ensureFormatVersion fresh disk).2 with
      | error failure =>
          exact .inl ⟨failure, by rw [bind_of_error hversion, ensureFormatVersion_no_effects]⟩
      | ok current =>
          rw [bind_of_no_effects (Prod.ext (ensureFormatVersion_no_effects fresh disk) hversion)]
          refine .inr ⟨rfl, rfl, _, ?_, rfl⟩
          refine FailsByIO.bind (failsByIO_inTurn fun step hstep => ?_) fun _ => ?_
          · obtain ⟨path, -, rfl⟩ := List.mem_map.mp hstep
            exact failsByIO_createDirAll path
          refine failsByIO_sweepOrphanTmpFiles.bind fun _ => ?_
          refine (failsByIO_readOrCreateDeviceId newId).bind fun deviceId => ?_
          refine FailsByIO.bind ?_ fun _ => failsByIO_done deviceId
          split
          · exact failsByIO_writeFile _ _
          · exact failsByIO_done ()

/-- What the disk answers is not a refusal. -/
theorem new_no_effects (hrefused : (new newId disk).2 = .error .invalidState) :
    (new newId disk).1 = [] := by
  rcases new_cases newId disk with ⟨failure, heq⟩ | ⟨-, -, rest, hrest, heq⟩
  · rw [heq]
  · rw [heq] at hrefused
    exact absurd (hrest disk _ hrefused) (by decide)

theorem checkFresh_of_new {deviceId : Text} (hopened : (new newId disk).2 = .ok deviceId) :
    (checkFresh (!disk.holds formatVersionPath) disk).2 = .ok () := by
  rcases new_cases newId disk with ⟨failure, heq⟩ | ⟨hchecked, -⟩
  · rw [heq] at hopened
    contradiction
  · exact hchecked

end FsBackend

/-- No path is there twice, and what is there is in a folder. -/
structure DataDir.IsTree (disk : DataDir) : Prop where
  nodup : (disk.map Prod.fst).Nodup
  inFolder : ∀ file ∈ disk, file.1 ≠ [] → (file.1.tail, .dir) ∈ disk

/-- The folders of a store, and in the one for its metadata the id of the device
and a folder with no offsets. -/
def MayHoldFresh : DirPath × DirEntry → Prop
  | ([], .dir) => True
  | ([name], .dir) => name ∈ allowedRoot
  | ([name, folder], .file _) => name :: [folder] = deviceIdPath
  | ([name, folder], .dir) => name :: [folder] = offsetsDir
  | _ => False

section Fresh

variable {disk : DataDir} {entries : List (String × DirEntry)}

theorem metadataEntry_mayHoldFresh (hnone : unexpectedMetadataEntry disk entries = none) :
    ∀ entry ∈ entries, MayHoldFresh (entry.1 :: keeplinDir, entry.2) ∧
      (entry.2 = .dir → disk.readDir offsetsDir = []) := by
  induction entries with
  | nil => exact fun entry hentry => absurd hentry List.not_mem_nil
  | cons first rest ih =>
      obtain ⟨name, found⟩ := first
      refine List.forall_mem_cons.mpr ?_
      cases found with
      | file content =>
          simp only [unexpectedMetadataEntry] at hnone
          split at hnone
          · next hname =>
              subst hname
              exact ⟨⟨rfl, fun hdir => absurd hdir (by simp)⟩, ih hnone⟩
          · contradiction
      | dir =>
          simp only [unexpectedMetadataEntry] at hnone
          split at hnone
          · contradiction
          · next hname =>
              split at hnone
              · contradiction
              · next hoffsets =>
                  obtain rfl := of_not_not hname
                  exact ⟨⟨rfl, fun _ => hoffsets⟩, ih hnone⟩

theorem rootEntry_mayHoldFresh (hnone : unexpectedRootEntry disk entries = none) :
    ∀ entry ∈ entries, MayHoldFresh ([entry.1], entry.2) ∧
      (entry.1 ≠ ".keeplin" → disk.readDir [entry.1] = []) := by
  induction entries with
  | nil => exact fun entry hentry => absurd hentry List.not_mem_nil
  | cons first rest ih =>
      obtain ⟨name, found⟩ := first
      refine List.forall_mem_cons.mpr ?_
      cases found with
      | file content => contradiction
      | dir =>
          simp only [unexpectedRootEntry] at hnone
          split at hnone
          · contradiction
          · next hallowed =>
              split at hnone
              · next hkeeplin =>
                  split at hnone
                  · contradiction
                  · exact ⟨⟨of_not_not hallowed, fun hne => absurd hkeeplin hne⟩, ih hnone⟩
              · next hother =>
                  split at hnone
                  · contradiction
                  · next hempty => exact ⟨⟨of_not_not hallowed, fun _ => hempty⟩, ih hnone⟩

theorem DataDir.IsTree.file? (htree : disk.IsTree) {path : DirPath} {entry : DirEntry}
    (hentry : (path, entry) ∈ disk) : Directory.file? disk path = some entry := by
  cases hfound : Directory.file? disk path with
  | none => exact absurd hentry (Directory.file?_eq_none_iff.mp hfound entry)
  | some found =>
      have hsame := List.inj_on_of_nodup_map htree.nodup hentry (Directory.file?_mem hfound) rfl
      rw [(Prod.mk.inj hsame).2]

theorem DataDir.IsTree.root (htree : disk.IsTree) {path : DirPath} {entry : DirEntry}
    (hentry : (path, entry) ∈ disk) (hne : path ≠ []) : ([], .dir) ∈ disk := by
  induction path generalizing entry with
  | nil => contradiction
  | cons name parent ih =>
      have hparent := htree.inFolder _ hentry (List.cons_ne_nil name parent)
      cases parent with
      | nil => exact hparent
      | cons folder rest => exact ih hparent (List.cons_ne_nil folder rest)

/-- The check lets nothing pass but what a fresh store may hold. -/
theorem DataDir.IsTree.mayHoldFresh (htree : disk.IsTree)
    (hchecked : unexpectedFreshStoreEntry disk = .ok none) {path : DirPath} {entry : DirEntry}
    (hentry : (path, entry) ∈ disk) : MayHoldFresh (path, entry) := by
  induction path generalizing entry with
  | nil =>
      have hroot := htree.file? hentry
      cases entry with
      | file content => simp [unexpectedFreshStoreEntry, hroot] at hchecked
      | dir => trivial
  | cons name parent ih =>
      have hlisted := DataDir.mem_readDir_of_mem hentry
      have hroot : unexpectedRootEntry disk (disk.readDir []) = none := by
        have hdir := htree.file? (htree.root hentry (List.cons_ne_nil name parent))
        simpa only [unexpectedFreshStoreEntry, hdir, Except.ok.injEq] using hchecked
      have hparent := htree.inFolder _ hentry (List.cons_ne_nil name parent)
      rcases parent with _ | ⟨folder, _ | ⟨above, rest⟩⟩
      · exact (rootEntry_mayHoldFresh hroot _ hlisted).1
      · by_cases hkeeplin : folder = ".keeplin"
        · subst hkeeplin
          have hnone := unexpectedMetadataEntry_of_root hroot (DataDir.mem_readDir_of_mem hparent)
          exact (metadataEntry_mayHoldFresh hnone _ hlisted).1
        · have hempty := (rootEntry_mayHoldFresh hroot _ (DataDir.mem_readDir_of_mem hparent)).2
          rw [hempty hkeeplin] at hlisted
          exact absurd hlisted List.not_mem_nil
      · -- The only folder that deep is the one for the offsets, and it is empty.
        have hoffsets : folder :: above :: rest = offsetsDir := by
          cases rest with
          | nil => exact ih hparent
          | cons _ _ => exact absurd (ih hparent) id
        rw [hoffsets] at hlisted hparent
        have hkeeplin := htree.inFolder _ hparent (List.cons_ne_nil "offsets" keeplinDir)
        have hnone := unexpectedMetadataEntry_of_root hroot (DataDir.mem_readDir_of_mem hkeeplin)
        have hempty :=
          (metadataEntry_mayHoldFresh hnone _ (DataDir.mem_readDir_of_mem hparent)).2 rfl
        rw [hempty] at hlisted
        exact absurd hlisted List.not_mem_nil

theorem DataDir.IsTree.mayHoldFresh_of_checked (htree : disk.IsTree)
    (hunstamped : disk.file? formatVersionPath = none)
    (hchecked : (checkFresh (!disk.holds formatVersionPath) disk).2 = .ok ())
    {entry : DirPath × DirEntry} (hentry : entry ∈ disk) : MayHoldFresh entry := by
  rw [Directory.holds_eq_isSome, hunstamped, Option.isSome_none, Bool.not_false] at hchecked
  exact htree.mayHoldFresh (checkFresh_true hchecked) hentry

end Fresh

/-- A directory that is refused stays as it was.  One with any stamp but that of this
build is refused, and so is one without a stamp that holds an entry that a fresh store
may not hold, so that one that is opened held no such entry. -/
theorem FsBackend.new_refuses_untouched {disk : DataDir} (htree : disk.IsTree) (newId : Text) :
    ((FsBackend.new newId disk).2 = .error .invalidState →
        disk.performAll (FsBackend.new newId disk).1 = disk) ∧
      (∀ stamp, disk.file? formatVersionPath = some stamp → ¬ IsCurrentStamp stamp →
        (∃ failure, (FsBackend.new newId disk).2 = .error failure) ∧
          disk.performAll (FsBackend.new newId disk).1 = disk) ∧
      (disk.file? formatVersionPath = none → ∀ entry ∈ disk, ¬ MayHoldFresh entry →
        (∃ failure, (FsBackend.new newId disk).2 = .error failure) ∧
          disk.performAll (FsBackend.new newId disk).1 = disk) ∧
      (disk.file? formatVersionPath = none →
        ∀ deviceId, (FsBackend.new newId disk).2 = .ok deviceId →
          ∀ entry ∈ disk, MayHoldFresh entry) := by
  refine ⟨fun hrefused => ?_, fun stamp hstamp hother => ?_,
    fun hunstamped entry hentry hunexpected => ?_, ?_⟩
  · rw [new_no_effects hrefused, DataDir.performAll_nil]
  · rcases new_cases newId disk with ⟨failure, heq⟩ | ⟨-, hensured, -⟩
    · rw [heq]
      exact ⟨⟨failure, rfl⟩, DataDir.performAll_nil disk⟩
    · rw [Directory.holds_eq_isSome, hstamp, Option.isSome_some, Bool.not_true] at hensured
      exact absurd (isCurrentStamp_of_ensured hstamp hensured) hother
  · rcases new_cases newId disk with ⟨failure, heq⟩ | ⟨hchecked, -⟩
    · rw [heq]
      exact ⟨⟨failure, rfl⟩, DataDir.performAll_nil disk⟩
    · exact absurd (htree.mayHoldFresh_of_checked hunstamped hchecked hentry) hunexpected
  · intro hunstamped deviceId hopened entry hentry
    exact htree.mayHoldFresh_of_checked hunstamped (checkFresh_of_new hopened) hentry

namespace FreshStoreWitness

def userFolder : DataDir := [([], .dir), (["thesis"], .dir), (["draft", "thesis"], .file [1])]

def identified : DataDir := [([], .dir), (keeplinDir, .dir), (deviceIdPath, .file [97])]

def outdated : DataDir :=
  [([], .dir), (keeplinDir, .dir), (formatVersionPath, .file (utf8 ['7']))]

/-- The folder of a user and a store of an older format are refused, and a folder
with nothing but the id of a device is opened. -/
theorem new_refuses_user :
    ((∃ failure, (FsBackend.new ['a'] userFolder).2 = .error failure) ∧
        userFolder.performAll (FsBackend.new ['a'] userFolder).1 = userFolder) ∧
      outdated.performAll (FsBackend.new ['a'] outdated).1 = outdated ∧
      ∀ entry ∈ identified, MayHoldFresh entry := by
  have huser : userFolder.IsTree := ⟨by decide, by decide⟩
  have houtdated : outdated.IsTree := ⟨by decide, by decide⟩
  have hidentified : identified.IsTree := ⟨by decide, by decide⟩
  have hthesis : ¬ MayHoldFresh (["thesis"], .dir) := by
    simp [MayHoldFresh, allowedRoot]
  refine ⟨(FsBackend.new_refuses_untouched huser ['a']).2.2.1 (by decide) _ (by decide) hthesis,
    ?_, (FsBackend.new_refuses_untouched hidentified ['b']).2.2.2 (by decide) ['a']
      (by decide +kernel)⟩
  refine ((FsBackend.new_refuses_untouched houtdated ['a']).2.1 _ rfl ?_).2
  rintro ⟨content, stamp, hcontent, hstamp, hcurrent⟩
  obtain rfl := DirEntry.file.inj hcontent
  obtain rfl := Except.ok.inj ((decode_utf8 ['7']).symm.trans hstamp)
  exact absurd hcurrent (by decide)

end FreshStoreWitness

end Keeplin
