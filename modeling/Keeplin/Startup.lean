/-
Starting the daemon on a directory: it takes the lock of the store and opens the
store there, which checks the directory, makes its folders, names the device and
stamps the format.  A crash leaves the first effects of this on the disk.
-/
import Keeplin.Directory
import Keeplin.JournalTail
import Mathlib.Algebra.Group.Nat.Defs

namespace Keeplin

/-- A path in the store's directory, the innermost name first; `[]` is the
directory itself. -/
abbrev DirPath := List String

inductive DirEntry where
  | dir
  | file (content : List UInt8)
deriving DecidableEq

/-- What is on the disk under the store's directory, if that exists. -/
abbrev DataDir := Directory DirPath DirEntry

/-- One change of the disk.  A file is written by two: it is created empty, or
emptied, and then filled. -/
inductive DiskEffect where
  | createDir (path : DirPath)
  | createFile (path : DirPath)
  | fillFile (path : DirPath) (content : List UInt8)
  | removeFile (path : DirPath)
deriving DecidableEq

namespace DataDir

def perform (disk : DataDir) : DiskEffect → DataDir
  | .createDir path => disk.put disk.length path .dir
  | .createFile path => disk.put disk.length path (.file [])
  | .fillFile path content => disk.put disk.length path (.file content)
  | .removeFile path => disk.filter fun entry => entry.1 ≠ path

def performAll (disk : DataDir) (effects : List DiskEffect) : DataDir :=
  effects.foldl perform disk

/-- The entries of a folder. -/
def readDir (disk : DataDir) (folder : DirPath) : List (String × DirEntry) :=
  disk.filterMap fun
    | (name :: parent, entry) => if parent = folder then some (name, entry) else none
    | ([], _) => none

end DataDir

/-- A step of the startup, given the disk it finds: its effects, in order, and
what it returns. -/
def DiskAction (A : Type) := DataDir → List DiskEffect × Except StorageError A

namespace DiskAction

variable {A B : Type}

def done (value : A) : DiskAction A := fun _ => ([], .ok value)

def fail (failure : StorageError) : DiskAction A := fun _ => ([], .error failure)

/-- A step that only reads. -/
def reading (read : DataDir → Except StorageError A) : DiskAction A := fun disk => ([], read disk)

/-- The second step finds the disk as the first has left it. -/
def bind (action : DiskAction A) (next : A → DiskAction B) : DiskAction B := fun disk =>
  match action disk with
  | (effects, .error failure) => (effects, .error failure)
  | (effects, .ok value) =>
      (effects ++ (next value (disk.performAll effects)).1,
        (next value (disk.performAll effects)).2)

end DiskAction

def keeplinDir : DirPath := [".keeplin"]

def lockPath : DirPath := "daemon.lock" :: keeplinDir

def formatVersionPath : DirPath := "format_version" :: keeplinDir

def deviceIdPath : DirPath := "device_id" :: keeplinDir

def offsetsDir : DirPath := "offsets" :: keeplinDir

def createDir (path : DirPath) : DiskAction Unit := fun disk =>
  match disk.file? path with
  | some .dir => ([], .ok ())
  | some (.file _) => ([], .error .io)
  | none => ([.createDir path], .ok ())

def createDirAll : DirPath → DiskAction Unit
  | [] => createDir []
  | name :: parent => (createDirAll parent).bind fun _ => createDir (name :: parent)

/-- Open a file for writing; its content stays. -/
def openFile (path : DirPath) : DiskAction Unit := fun disk =>
  match disk.file? path with
  | some .dir => ([], .error .io)
  | some (.file _) => ([], .ok ())
  | none => ([.createFile path], .ok ())

def writeFile (path : DirPath) (content : Text) : DiskAction Unit := fun disk =>
  match disk.file? path with
  | some .dir => ([], .error .io)
  | _ => ([.createFile path, .fillFile path (utf8 content)], .ok ())

/-- Read a file as a text; one that is not UTF-8 cannot be read. -/
def readFile (path : DirPath) : DiskAction Text :=
  .reading fun disk =>
    match disk.file? path with
    | some (.file content) => decode content
    | _ => .error .io

/-- No other daemon holds the lock: the one before has exited or crashed. -/
def acquireStoreLock : DiskAction Unit :=
  (createDirAll keeplinDir).bind fun _ => openFile lockPath

def formatVersion : Nat := 8

def allowedRoot : List String :=
  ["notes", ".keeplin", "logs", "notebooks", "tags", "note_tags"]

/-- The first entry of the metadata folder that a startup does not leave there. -/
def unexpectedMetadataEntry (disk : DataDir) :
    List (String × DirEntry) → Option DirPath
  | [] => none
  | (name, .file _) :: rest =>
      if name = "device_id" then unexpectedMetadataEntry disk rest
      else some (name :: keeplinDir)
  | (name, .dir) :: rest =>
      if name ≠ "offsets" then some (name :: keeplinDir)
      else
        match disk.readDir offsetsDir with
        | (offset, _) :: _ => some (offset :: offsetsDir)
        | [] => unexpectedMetadataEntry disk rest

def unexpectedRootEntry (disk : DataDir) : List (String × DirEntry) → Option DirPath
  | [] => none
  | (name, .file _) :: _ => some [name]
  | (name, .dir) :: rest =>
      if name ∉ allowedRoot then some [name]
      else if name = ".keeplin" then
        match unexpectedMetadataEntry disk (disk.readDir keeplinDir) with
        | some path => some path
        | none => unexpectedRootEntry disk rest
      else
        match disk.readDir [name] with
        | (unexpected, _) :: _ => some [unexpected, name]
        | [] => unexpectedRootEntry disk rest

def unexpectedFreshStoreEntry (disk : DataDir) : Except StorageError (Option DirPath) :=
  match disk.file? [] with
  | none => .ok none
  | some (.file _) => .error .io
  | some .dir => .ok (unexpectedRootEntry disk (disk.readDir []))

/-- The decimal digits of an unsigned number of 32 bits; one plus sign may stand
before them. -/
def parseU32 (text : Text) : Option Nat :=
  let digits :=
    match text with
    | '+' :: rest => rest
    | _ => text
  if digits ≠ [] ∧ digits.all Char.isDigit then
    let value := digits.foldl (fun value digit => 10 * value + (digit.toNat - '0'.toNat)) 0
    if value < 2 ^ 32 then some value else none
  else none

/-- Any other version of the format is refused, and so is a stamp that is not a
number. -/
def ensureFormatVersion (fresh : Bool) : DiskAction Unit :=
  if fresh then .done ()
  else
    (readFile formatVersionPath).bind fun stamp =>
      match parseU32 (trim stamp) with
      | some current => if current = formatVersion then .done () else .fail .invalidState
      | none => .fail .invalidState

def isOrphanTmp (name : String) : Bool :=
  ".tmp".toList.isSuffixOf name.toList && !".syncthing.".toList.isPrefixOf name.toList

def sweepTmpInDir (folder : DirPath) : DiskAction Unit := fun disk =>
  ((disk.readDir folder).filterMap fun
    | (name, .file _) => if isOrphanTmp name then some (.removeFile (name :: folder)) else none
    | (_, .dir) => none, .ok ())

def subfolders (disk : DataDir) (folder : DirPath) : List DirPath :=
  (disk.readDir folder).filterMap fun
    | (name, .dir) => some (name :: folder)
    | (_, .file _) => none

/-- The folders in which a write may leave a temporary file. -/
def sweptDirs (disk : DataDir) : List DirPath :=
  [["notebooks"], ["tags"], ["logs"], keeplinDir, offsetsDir] ++
    (subfolders disk ["notes"]).flatMap (fun folder => [folder, "resources" :: folder]) ++
    subfolders disk ["note_tags"]

def inTurn (steps : List (DiskAction Unit)) : DiskAction Unit :=
  steps.foldr (fun step rest => step.bind fun _ => rest) (.done ())

def sweepOrphanTmpFiles : DiskAction Unit := fun disk =>
  inTurn ((sweptDirs disk).map sweepTmpInDir) disk

/-- `newId` is the id a device without one is given. -/
def readOrCreateDeviceId (newId : Text) : DiskAction Text := fun disk =>
  if disk.holds deviceIdPath then
    ((readFile deviceIdPath).bind fun id => .done (trim id)) disk
  else ((writeFile deviceIdPath newId).bind fun _ => .done newId) disk

def skeletonDirs : List DirPath :=
  [["notes"], keeplinDir, offsetsDir, ["logs"], ["notebooks"], ["tags"], ["note_tags"]]

/-- A directory without the stamp of a format must look like a fresh store. -/
def checkFresh (fresh : Bool) : DiskAction Unit :=
  if fresh then
    (DiskAction.reading unexpectedFreshStoreEntry).bind fun
      | some _ => .fail .invalidState
      | none => .done ()
  else .done ()

namespace FsBackend

/-- Open the store in the directory; the id of the device is returned.  The scan
for conflict copies only writes to the log of the daemon. -/
def «new» (newId : Text) : DiskAction Text := fun disk =>
  let fresh := !disk.holds formatVersionPath
  ((checkFresh fresh).bind fun _ =>
    (ensureFormatVersion fresh).bind fun _ =>
    (inTurn (skeletonDirs.map createDirAll)).bind fun _ =>
    sweepOrphanTmpFiles.bind fun _ =>
    (readOrCreateDeviceId newId).bind fun deviceId =>
    (if fresh then writeFile formatVersionPath (toString formatVersion).toList else .done ()).bind
      fun _ => .done deviceId) disk

end FsBackend

def startup (newId : Text) : DiskAction Text :=
  acquireStoreLock.bind fun _ => FsBackend.new newId

namespace DataDir

variable {disk : DataDir} {path : DirPath}

@[simp] theorem performAll_nil (disk : DataDir) : disk.performAll [] = disk := rfl

theorem performAll_append (disk : DataDir) (first second : List DiskEffect) :
    disk.performAll (first ++ second) = (disk.performAll first).performAll second :=
  List.foldl_append

/-- An entry is found in the folder it is in. -/
theorem mem_readDir_of_mem {folder : DirPath} {name : String} {entry : DirEntry}
    (hentry : (name :: folder, entry) ∈ disk) : (name, entry) ∈ disk.readDir folder :=
  List.mem_filterMap.mpr ⟨_, hentry, if_pos rfl⟩

theorem mem_readDir {folder : DirPath} {name : String} {entry : DirEntry}
    (hfile : disk.file? (name :: folder) = some entry) :
    (name, entry) ∈ disk.readDir folder :=
  mem_readDir_of_mem (Directory.file?_mem hfile)

/-- The effect is on another path, and removes nothing. -/
def Spares (path : DirPath) : DiskEffect → Prop
  | .createDir other | .createFile other | .fillFile other _ => other ≠ path
  | .removeFile _ => False

theorem file?_perform {effect : DiskEffect} (hspares : Spares path effect) :
    (disk.perform effect).file? path = disk.file? path := by
  cases effect with
  | createDir other => exact Directory.file?_put_of_ne hspares
  | createFile other => exact Directory.file?_put_of_ne hspares
  | fillFile other content => exact Directory.file?_put_of_ne hspares
  | removeFile other => exact absurd hspares id

theorem file?_performAll {effects : List DiskEffect}
    (hspares : ∀ effect ∈ effects, Spares path effect) :
    (disk.performAll effects).file? path = disk.file? path := by
  induction effects generalizing disk with
  | nil => rfl
  | cons effect rest ih =>
      have hrest : ((disk.perform effect).performAll rest).file? path =
          (disk.perform effect).file? path :=
        ih fun later hlater => hspares later (List.mem_cons_of_mem _ hlater)
      exact hrest.trans (file?_perform (hspares effect List.mem_cons_self))

end DataDir

namespace DiskAction

variable {A B : Type} {action : DiskAction A} {next : A → DiskAction B} {disk : DataDir}

theorem bind_of_ok {value : A} (hvalue : (action disk).2 = .ok value) :
    action.bind next disk =
      ((action disk).1 ++ (next value (disk.performAll (action disk).1)).1,
        (next value (disk.performAll (action disk).1)).2) := by
  simp only [DiskAction.bind]
  split
  · next failure herror =>
      rw [herror] at hvalue
      contradiction
  · next effects found hfound =>
      rw [hfound, Except.ok.injEq] at hvalue
      rw [hfound, hvalue]

theorem bind_of_error {failure : StorageError} (hfailure : (action disk).2 = .error failure) :
    action.bind next disk = ((action disk).1, .error failure) := by
  simp only [DiskAction.bind]
  split
  · next effects found hfound =>
      rw [hfound] at hfailure ⊢
      rw [Except.error.inj hfailure]
  · next effects found hfound =>
      rw [hfound] at hfailure
      contradiction

theorem mem_effects_bind {effect : DiskEffect} (heffect : effect ∈ (action.bind next disk).1) :
    effect ∈ (action disk).1 ∨ ∃ value, (action disk).2 = .ok value ∧
      effect ∈ (next value (disk.performAll (action disk).1)).1 := by
  cases hresult : (action disk).2 with
  | error failure =>
      rw [bind_of_error hresult] at heffect
      exact Or.inl heffect
  | ok value =>
      rw [bind_of_ok hresult] at heffect
      rcases List.mem_append.mp heffect with hfirst | hlater
      · exact Or.inl hfirst
      · exact Or.inr ⟨value, rfl, hlater⟩

theorem bind_eq_ok {result : B} :
    (action.bind next disk).2 = .ok result ↔
      ∃ value, (action disk).2 = .ok value ∧
        (next value (disk.performAll (action disk).1)).2 = .ok result := by
  cases hresult : (action disk).2 with
  | error failure => simp [bind_of_error hresult]
  | ok value => simp [bind_of_ok hresult]

end DiskAction

open DiskAction

section Steps

variable {disk : DataDir}

theorem createDir_effects {path : DirPath} {effect : DiskEffect}
    (heffect : effect ∈ (createDir path disk).1) : effect = .createDir path := by
  simp only [createDir] at heffect
  split at heffect
  · exact absurd heffect List.not_mem_nil
  · exact absurd heffect List.not_mem_nil
  · exact List.mem_singleton.mp heffect

theorem file?_createDir {path : DirPath} (hdone : (createDir path disk).2 = .ok ()) :
    (disk.performAll (createDir path disk).1).file? path = some .dir := by
  simp only [createDir] at hdone ⊢
  split at hdone
  · next hdir => exact hdir
  · contradiction
  · exact Directory.file?_put_self disk disk.length path .dir

theorem createDirAll_effects {path : DirPath} {effect : DiskEffect}
    (heffect : effect ∈ (createDirAll path disk).1) :
    ∃ folder, folder <:+ path ∧ effect = .createDir folder := by
  induction path with
  | nil => exact ⟨[], List.suffix_rfl, createDir_effects heffect⟩
  | cons name parent ih =>
      rcases mem_effects_bind heffect with hparent | ⟨-, -, hself⟩
      · obtain ⟨folder, hsuffix, heq⟩ := ih hparent
        exact ⟨folder, hsuffix.trans (List.suffix_cons name parent), heq⟩
      · exact ⟨name :: parent, List.suffix_rfl, createDir_effects hself⟩

/-- A folder is there with every folder above it. -/
theorem file?_createDirAll {path folder : DirPath}
    (hdone : (createDirAll path disk).2 = .ok ()) (hsuffix : folder <:+ path) :
    (disk.performAll (createDirAll path disk).1).file? folder = some .dir := by
  induction path with
  | nil =>
      rw [List.suffix_nil.mp hsuffix]
      exact file?_createDir hdone
  | cons name parent ih =>
      obtain ⟨⟨⟩, hparent, hself⟩ := bind_eq_ok.mp hdone
      rw [createDirAll, bind_of_ok hparent, DataDir.performAll_append]
      rcases List.suffix_cons_iff.mp hsuffix with heq | hinner
      · rw [heq]
        exact file?_createDir hself
      · refine (DataDir.file?_performAll ?_).trans (ih hparent hinner)
        intro effect heffect
        rw [createDir_effects heffect]
        intro hsame
        have hlength := hinner.length_le
        rw [← hsame, List.length_cons] at hlength
        omega

theorem openFile_effects {path : DirPath} {effect : DiskEffect}
    (heffect : effect ∈ (openFile path disk).1) : effect = .createFile path := by
  simp only [openFile] at heffect
  split at heffect
  · exact absurd heffect List.not_mem_nil
  · exact absurd heffect List.not_mem_nil
  · exact List.mem_singleton.mp heffect

theorem file?_openFile {path : DirPath} (hdone : (openFile path disk).2 = .ok ()) :
    ∃ content, (disk.performAll (openFile path disk).1).file? path = some (.file content) := by
  simp only [openFile] at hdone ⊢
  split at hdone
  · contradiction
  · next content hfile => exact ⟨content, hfile⟩
  · exact ⟨[], Directory.file?_put_self disk disk.length path (.file [])⟩

/-- The lock is not an effect on any file but its own. -/
theorem acquireStoreLock_spares {effect : DiskEffect}
    (heffect : effect ∈ (acquireStoreLock disk).1) :
    DataDir.Spares formatVersionPath effect := by
  rcases mem_effects_bind heffect with hdirs | ⟨-, -, hlock⟩
  · obtain ⟨folder, hsuffix, rfl⟩ := createDirAll_effects hdirs
    rintro rfl
    exact absurd hsuffix.length_le (by decide)
  · rw [openFile_effects hlock]
    exact (by decide : lockPath ≠ formatVersionPath)

/-- With the lock there are its file and the folders above that. -/
theorem file?_acquireStoreLock (hdone : (acquireStoreLock disk).2 = .ok ()) :
    let after := disk.performAll (acquireStoreLock disk).1
    after.file? [] = some .dir ∧ after.file? keeplinDir = some .dir ∧
      ∃ content, after.file? lockPath = some (.file content) := by
  obtain ⟨⟨⟩, hdirs, hlock⟩ := bind_eq_ok.mp hdone
  have hsame : ∀ folder, folder <:+ keeplinDir →
      (disk.performAll (acquireStoreLock disk).1).file? folder = some .dir := by
    intro folder hsuffix
    rw [acquireStoreLock, bind_of_ok hdirs, DataDir.performAll_append]
    refine (DataDir.file?_performAll ?_).trans (file?_createDirAll hdirs hsuffix)
    intro effect heffect
    rw [openFile_effects heffect]
    rintro rfl
    exact absurd hsuffix.length_le (by decide)
  refine ⟨hsame [] (List.nil_suffix), hsame keeplinDir List.suffix_rfl, ?_⟩
  rw [acquireStoreLock, bind_of_ok hdirs, DataDir.performAll_append]
  exact file?_openFile hlock

theorem mem_unexpectedMetadataEntry {entries : List (String × DirEntry)}
    (hnone : unexpectedMetadataEntry disk entries = none) :
    ∀ entry ∈ entries, entry.1 = "device_id" ∨ entry.1 = "offsets" := by
  induction entries with
  | nil => exact fun entry hentry => absurd hentry List.not_mem_nil
  | cons first rest ih =>
      obtain ⟨name, found⟩ := first
      refine List.forall_mem_cons.mpr ?_
      cases found with
      | file content =>
          simp only [unexpectedMetadataEntry] at hnone
          split at hnone
          · next hname => exact ⟨Or.inl hname, ih hnone⟩
          · contradiction
      | dir =>
          simp only [unexpectedMetadataEntry] at hnone
          split at hnone
          · contradiction
          · next hname =>
              split at hnone
              · contradiction
              · exact ⟨Or.inr (of_not_not hname), ih hnone⟩

theorem unexpectedMetadataEntry_of_root {entries : List (String × DirEntry)}
    (hnone : unexpectedRootEntry disk entries = none) (hkeeplin : (".keeplin", .dir) ∈ entries) :
    unexpectedMetadataEntry disk (disk.readDir keeplinDir) = none := by
  induction entries with
  | nil => exact absurd hkeeplin List.not_mem_nil
  | cons first rest ih =>
      obtain ⟨name, found⟩ := first
      cases found with
      | file content => contradiction
      | dir =>
          simp only [unexpectedRootEntry] at hnone
          split at hnone
          · contradiction
          · split at hnone
            · split at hnone
              · contradiction
              · next hmetadata => exact hmetadata
            · next hother =>
                split at hnone
                · contradiction
                · rcases List.mem_cons.mp hkeeplin with heq | hrest
                  · exact absurd (Prod.mk.inj heq).1.symm hother
                  · exact ih hnone hrest

/-- The file of the lock is not among those a fresh store may have. -/
theorem new_refuses_lock {content : List UInt8} (newId : Text)
    (hunstamped : disk.file? formatVersionPath = none) (hroot : disk.file? [] = some .dir)
    (hkeeplin : disk.file? keeplinDir = some .dir)
    (hlock : disk.file? lockPath = some (.file content)) :
    FsBackend.new newId disk = ([], .error .invalidState) := by
  have hfresh : disk.holds formatVersionPath = false := by
    rw [Directory.holds_eq_isSome, hunstamped]
    rfl
  have hentry : unexpectedRootEntry disk (disk.readDir []) ≠ none := by
    intro hnone
    have hmetadata := unexpectedMetadataEntry_of_root hnone (DataDir.mem_readDir hkeeplin)
    rcases mem_unexpectedMetadataEntry hmetadata _ (DataDir.mem_readDir hlock) with hid | hoffsets
    · exact absurd hid (by decide : "daemon.lock" ≠ "device_id")
    · exact absurd hoffsets (by decide : "daemon.lock" ≠ "offsets")
  obtain ⟨path, hpath⟩ := Option.ne_none_iff_exists'.mp hentry
  have hread : unexpectedFreshStoreEntry disk = .ok (some path) := by
    simp only [unexpectedFreshStoreEntry, hroot, hpath]
  have hcheck : checkFresh true disk = ([], .error .invalidState) := by
    simp only [checkFresh, ↓reduceIte]
    rw [bind_of_ok hread]
    rfl
  have hrefused : (checkFresh (!disk.holds formatVersionPath) disk).2 = .error .invalidState := by
    rw [hfresh, Bool.not_false, hcheck]
  rw [FsBackend.new, bind_of_error hrefused, hfresh, Bool.not_false, hcheck]

/-- Without a stamp the lock alone has effects, and the store does not open. -/
theorem startup_unstamped (newId : Text) (hunstamped : disk.file? formatVersionPath = none) :
    (∀ effect ∈ (startup newId disk).1, DataDir.Spares formatVersionPath effect) ∧
      ∀ id, (startup newId disk).2 ≠ .ok id := by
  cases hlock : (acquireStoreLock disk).2 with
  | error failure =>
      rw [startup, bind_of_error hlock]
      exact ⟨fun effect => acquireStoreLock_spares, fun id => by simp⟩
  | ok acquired =>
      obtain ⟨hroot, hkeeplin, content, hfile⟩ := file?_acquireStoreLock hlock
      have hafter : (disk.performAll (acquireStoreLock disk).1).file? formatVersionPath = none :=
        (DataDir.file?_performAll fun effect => acquireStoreLock_spares).trans hunstamped
      have hrefused := new_refuses_lock newId hafter hroot hkeeplin hfile
      rw [startup, bind_of_ok hlock, hrefused, List.append_nil]
      exact ⟨fun effect => acquireStoreLock_spares, fun id => by simp⟩

end Steps

/-- Start the daemon again and again; each time only the first effects of it
come to be on the disk. -/
def startups (disk : DataDir) : List (Text × Nat) → DataDir
  | [] => disk
  | (newId, cut) :: rest => startups (disk.performAll ((startup newId disk).1.take cut)) rest

/-- No startup stamps a directory that has no stamp. -/
theorem startups_unstamped {disk : DataDir} (attempts : List (Text × Nat))
    (hunstamped : disk.file? formatVersionPath = none) :
    (startups disk attempts).file? formatVersionPath = none := by
  induction attempts generalizing disk with
  | nil => exact hunstamped
  | cons attempt rest ih =>
      obtain ⟨newId, cut⟩ := attempt
      refine ih ((DataDir.file?_performAll fun effect heffect => ?_).trans hunstamped)
      exact (startup_unstamped newId hunstamped).1 effect (List.mem_of_mem_take heffect)

/-- A directory that does not exist, or is empty. -/
def FreshDataDir (disk : DataDir) : Prop := disk = [] ∨ disk = [([], .dir)]

theorem FreshDataDir.unstamped {disk : DataDir} (hfresh : FreshDataDir disk) :
    disk.file? formatVersionPath = none := by
  rcases hfresh with rfl | rfl
  · rfl
  · decide

/-- The daemon starts on the disk, and the device has an id. -/
def Starts (newId : Text) (disk : DataDir) : Prop :=
  ∃ deviceId, (startup newId disk).2 = .ok deviceId ∧ deviceId ≠ []

/-- A first startup, cut after any number of its effects or after none, is never
followed by one that succeeds. -/
theorem startup_never_recovers (disk : DataDir) (hfresh : FreshDataDir disk)
    (newId laterId : Text) (cut : Nat) :
    ¬ Starts newId disk ∧
      ¬ Starts laterId (disk.performAll ((startup newId disk).1.take cut)) := by
  have hunstamped := hfresh.unstamped
  refine ⟨fun hstarts => ?_, fun hstarts => ?_⟩
  · obtain ⟨id, hid, -⟩ := hstarts
    exact (startup_unstamped newId hunstamped).2 id hid
  · obtain ⟨id, hid, -⟩ := hstarts
    have hcut := startups_unstamped [(newId, cut)] hunstamped
    exact (startup_unstamped laterId hcut).2 id hid

theorem startup_never_recovers_missing :
    FreshDataDir [] ∧ ¬ Starts "a".toList [] ∧
      ¬ Starts "b".toList
        (DataDir.performAll [] ((startup "a".toList []).1.take 2)) :=
  ⟨Or.inl rfl, startup_never_recovers [] (Or.inl rfl) "a".toList "b".toList 2⟩

/-- The uninterrupted first startup in a directory that does not exist fails. -/
theorem first_startup_fails :
    ¬ ∀ disk, FreshDataDir disk → ∀ newId laterId : Text, newId ≠ [] → laterId ≠ [] →
      ∀ cut, Starts laterId (disk.performAll ((startup newId disk).1.take cut)) := by
  intro hrecovers
  obtain ⟨id, hid, -⟩ := hrecovers [] (Or.inl rfl) ['a'] ['a'] (by decide) (by decide) 0
  exact (startup_unstamped ['a'] (FreshDataDir.unstamped (Or.inl rfl))).2 id hid

/-- Without the lock the store opens. -/
example (newId : Text) : (FsBackend.new newId []).2 = .ok newId := rfl

end Keeplin
