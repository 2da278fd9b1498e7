/-
The files that the backend writes through a temporary file, which it renames.  A crash leaves
the first effects of what the backend did on the disk; the next start removes the temporary
files, and every write is then there as a whole or not at all.
-/
import Keeplin.FreshStores

namespace Keeplin

inductive FileEffect where
  | onDisk (effect : DiskEffect)
  | rename (source target : DirPath)

def DiskEffect.path : DiskEffect → DirPath
  | .createDir path | .createFile path | .fillFile path _ | .removeFile path => path

namespace DataDir

def isDir (disk : DataDir) (path : DirPath) : Bool := disk.file? path = some .dir

def isFile (disk : DataDir) (path : DirPath) : Bool :=
  match disk.file? path with
  | some (.file _) => true
  | _ => false

/-- Whether the system does such an effect, or refuses it. -/
def allows (disk : DataDir) : DiskEffect → Bool
  | .createDir [] | .createFile [] => false
  | .createDir (name :: folder) => !disk.holds (name :: folder) && disk.isDir folder
  | .createFile (name :: folder) => !disk.isDir (name :: folder) && disk.isDir folder
  | .fillFile path _ | .removeFile path => disk.isFile path

def performFile (disk : DataDir) : FileEffect → DataDir
  | .onDisk effect => disk.perform effect
  | .rename source target =>
      match disk.file? source with
      | some entry => (disk.perform (.removeFile source)).put disk.length target entry
      | none => disk

def performFiles (disk : DataDir) (effects : List FileEffect) : DataDir :=
  effects.foldl performFile disk

end DataDir

/-- The name without what stands after its last dot; a dot that leads it stays. -/
def fileStem (name : List Char) : List Char :=
  match name.reverse.dropWhile fun c => c ≠ '.' with
  | _ :: last :: before => (last :: before).reverse
  | _ => name

def tmpName (name : String) : String := String.ofList (fileStem name.toList ++ ".tmp".toList)

/-- A call of `atomic_write`.  The bytes come to the disk by and by, up to each of `cuts`.
The call may fail after some of its effects, and then the removal of the temporary file
may fail as well. -/
structure AtomicWrite where
  name : String
  folder : DirPath
  bytes : List UInt8
  cuts : List Nat
  failure : Option Nat
  removed : Bool

namespace AtomicWrite

variable (write : AtomicWrite) (disk : DataDir)

def path : DirPath := write.name :: write.folder

def tmp : DirPath := tmpName write.name :: write.folder

def fills : List DiskEffect :=
  .createFile write.tmp :: write.cuts.map (fun cut => .fillFile write.tmp (write.bytes.take cut)) ++
    [.fillFile write.tmp write.bytes]

/-- The effects that a call has before its rename, or where it fails. -/
def OnTmp (change : DiskEffect) : Prop :=
  change = .createFile write.tmp ∨ (∃ content, change = .fillFile write.tmp content) ∨
    change = .removeFile write.tmp

/-- The temporary file cannot be created outside a folder or where a folder is. -/
def begins : Bool := disk.isDir write.folder && !disk.isDir write.tmp

def succeeds : Bool := write.begins disk && !disk.isDir write.path && write.failure.isNone

def atomicWrite : List FileEffect :=
  if write.succeeds disk then
    write.fills.map .onDisk ++ [.rename write.tmp write.path]
  else if write.begins disk then
    let removal : List DiskEffect := if write.removed then [.removeFile write.tmp] else []
    (write.fills.take (write.failure.getD write.fills.length) ++ removal).map .onDisk
  else []

end AtomicWrite

/-- What the backend does to the disk: an atomic write, or another effect. -/
inductive FileStep where
  | effect (effect : DiskEffect)
  | atomicWrite (write : AtomicWrite)

namespace FileStep

def effects (disk : DataDir) : FileStep → List FileEffect
  | .effect change => if disk.allows change then [.onDisk change] else []
  | .atomicWrite write => write.atomicWrite disk

/-- The disk after a step, where an atomic write is one change of one file. -/
def after (disk : DataDir) : FileStep → DataDir
  | .effect change => if disk.allows change then disk.perform change else disk
  | .atomicWrite write =>
      if write.succeeds disk then disk.put disk.length write.path (.file write.bytes) else disk

end FileStep

def allEffects (disk : DataDir) : List FileStep → List FileEffect
  | [] => []
  | step :: rest =>
      step.effects disk ++ allEffects (disk.performFiles (step.effects disk)) rest

def afterAll (disk : DataDir) (steps : List FileStep) : DataDir := steps.foldl FileStep.after disk

/-- The folders that a start looks for temporary files in, where they exist. -/
def Sweepable (folder : DirPath) : Prop :=
  folder ∈ [["notebooks"], ["tags"], ["logs"], keeplinDir, offsetsDir] ∨
    ∃ name, folder = [name, "notes"] ∨ folder = ["resources", name, "notes"] ∨
      folder = [name, "note_tags"]

def Orphan : DirPath → Prop
  | name :: folder => isOrphanTmp name = true ∧ Sweepable folder
  | [] => False

/-- An atomic write in the folders of the store, or an effect on no temporary file. -/
def FileStep.Proper : FileStep → Prop
  | .effect change => ¬ Orphan change.path
  | .atomicWrite write => Sweepable write.folder ∧ isOrphanTmp write.name = false ∧
      isOrphanTmp (tmpName write.name) = true

/-- The disk, beside the one where writes are atomic: temporary files apart, both hold the
same. -/
structure Mirrors (concrete plain : DataDir) : Prop where
  tree : concrete.IsTree
  same : ∀ path, ¬ Orphan path → concrete.file? path = plain.file? path
  orphans : ∀ path, Orphan path → concrete.file? path ≠ some .dir ∧ plain.file? path = none

namespace DataDir.IsTree

variable {disk : DataDir}

theorem put (htree : disk.IsTree) {position : Nat} {path : DirPath} {entry : DirEntry}
    (hfolder : path ≠ [] → disk.file? path.tail = some .dir)
    (hfile : disk.file? path ≠ some .dir) :
    DataDir.IsTree (Directory.put disk position path entry) where
  nodup := Directory.nodup_put htree.nodup
  inFolder := by
    have hkept : ∀ folder, (folder, DirEntry.dir) ∈ disk →
        (folder, DirEntry.dir) ∈ Directory.put disk position path entry := by
      intro folder hdir
      apply Directory.mem_put_of_ne hdir
      rintro rfl
      exact hfile (htree.file? hdir)
    intro file hmem hne
    rcases Directory.eq_or_mem_of_mem_put hmem with rfl | ⟨hold, -⟩
    · exact hkept _ (Directory.file?_mem (hfolder hne))
    · exact hkept _ (htree.inFolder file hold hne)

theorem remove (htree : disk.IsTree) {path : DirPath} (hfile : disk.file? path ≠ some .dir) :
    (disk.perform (.removeFile path)).IsTree where
  nodup := htree.nodup.sublist (List.filter_sublist.map Prod.fst)
  inFolder := by
    intro file hmem hne
    have hdir := htree.inFolder file (List.mem_of_mem_filter hmem) hne
    refine List.mem_filter.mpr ⟨hdir, decide_eq_true ?_⟩
    intro heq
    exact hfile (heq ▸ htree.file? hdir)

end DataDir.IsTree

theorem file?_removeFile (disk : DataDir) (path other : DirPath) :
    (disk.perform (.removeFile path)).file? other =
      if other = path then none else disk.file? other := by
  refine (Directory.file?_filter disk (fun key => decide (key ≠ path)) other).trans ?_
  by_cases heq : other = path <;> simp [heq]

namespace Mirrors

variable {concrete plain : DataDir}

theorem isDir_iff (hmirrors : Mirrors concrete plain) (path : DirPath) :
    concrete.file? path = some .dir ↔ plain.file? path = some .dir := by
  by_cases horphan : Orphan path
  · obtain ⟨hfile, hnone⟩ := hmirrors.orphans path horphan
    rw [hnone]
    exact ⟨fun hdir => absurd hdir hfile, fun hdir => by cases hdir⟩
  · rw [hmirrors.same path horphan]

theorem isDir_eq (hmirrors : Mirrors concrete plain) (path : DirPath) :
    concrete.isDir path = plain.isDir path := by
  unfold DataDir.isDir
  exact decide_eq_decide.mpr (hmirrors.isDir_iff path)

/-- Another effect is allowed on both disks, and does the same on both. -/
theorem allows_eq (hmirrors : Mirrors concrete plain) {change : DiskEffect}
    (hproper : ¬ Orphan change.path) : concrete.allows change = plain.allows change := by
  have hsame := hmirrors.same change.path hproper
  cases change with
  | createDir path =>
      cases path with
      | nil => rfl
      | cons name folder =>
          simp only [DataDir.allows, hmirrors.isDir_eq, Directory.holds_eq_isSome]
          rw [show concrete.file? (name :: folder) = plain.file? (name :: folder) from hsame]
  | createFile path =>
      cases path with
      | nil => rfl
      | cons name folder => simp only [DataDir.allows, hmirrors.isDir_eq]
  | fillFile path content | removeFile path =>
      simp only [DataDir.allows, DataDir.isFile]
      rw [show concrete.file? path = plain.file? path from hsame]

/-- A write of a temporary file. -/
theorem putTmp (hmirrors : Mirrors concrete plain) {path : DirPath} {content : List UInt8}
    (horphan : Orphan path) (hfolder : concrete.file? path.tail = some .dir) (position : Nat) :
    Mirrors (concrete.put position path (.file content)) plain where
  tree := hmirrors.tree.put (fun _ => hfolder) (hmirrors.orphans path horphan).1
  same := by
    intro other hother
    rw [Directory.file?_put, if_neg]
    · exact hmirrors.same other hother
    · rintro rfl
      exact hother horphan
  orphans := by
    intro other hother
    refine ⟨?_, (hmirrors.orphans other hother).2⟩
    rw [Directory.file?_put]
    split
    · exact fun hdir => by cases hdir
    · exact (hmirrors.orphans other hother).1

theorem removeTmp (hmirrors : Mirrors concrete plain) {path : DirPath} (horphan : Orphan path) :
    Mirrors (concrete.perform (.removeFile path)) plain where
  tree := hmirrors.tree.remove (hmirrors.orphans path horphan).1
  same := by
    intro other hother
    rw [file?_removeFile, if_neg]
    · exact hmirrors.same other hother
    · rintro rfl
      exact hother horphan
  orphans := by
    intro other hother
    refine ⟨?_, (hmirrors.orphans other hother).2⟩
    rw [file?_removeFile]
    split
    · exact fun hdir => by cases hdir
    · exact (hmirrors.orphans other hother).1

/-- A file or folder comes to be on both disks. -/
theorem putBoth (hmirrors : Mirrors concrete plain) {path : DirPath} {entry : DirEntry}
    (hproper : ¬ Orphan path) (hfolder : path ≠ [] → concrete.file? path.tail = some .dir)
    (hfile : concrete.file? path ≠ some .dir) (position other : Nat) :
    Mirrors (concrete.put position path entry) (plain.put other path entry) where
  tree := hmirrors.tree.put hfolder hfile
  same := by
    intro found hfound
    rw [Directory.file?_put, Directory.file?_put, hmirrors.same found hfound]
  orphans := by
    intro found hfound
    have hne : path ≠ found := by
      rintro rfl
      exact hproper hfound
    rw [Directory.file?_put, Directory.file?_put, if_neg hne, if_neg hne]
    exact hmirrors.orphans found hfound

theorem removeBoth (hmirrors : Mirrors concrete plain) {path : DirPath}
    (hfile : concrete.file? path ≠ some .dir) :
    Mirrors (concrete.perform (.removeFile path)) (plain.perform (.removeFile path)) where
  tree := hmirrors.tree.remove hfile
  same := by
    intro found hfound
    rw [file?_removeFile, file?_removeFile, hmirrors.same found hfound]
  orphans := by
    intro found hfound
    rw [file?_removeFile, file?_removeFile]
    split
    · exact ⟨(Option.some_ne_none _).symm, rfl⟩
    · exact hmirrors.orphans found hfound

theorem folder_of_file (hmirrors : Mirrors concrete plain) {path : DirPath} {entry : DirEntry}
    (hentry : concrete.file? path = some entry) (hne : path ≠ []) :
    concrete.file? path.tail = some .dir :=
  hmirrors.tree.file? (hmirrors.tree.inFolder _ (Directory.file?_mem hentry) hne)

theorem performBoth (hmirrors : Mirrors concrete plain) {change : DiskEffect}
    (hproper : ¬ Orphan change.path) (hallowed : concrete.allows change = true) :
    Mirrors (concrete.perform change) (plain.perform change) := by
  cases change with
  | createDir path | createFile path =>
      cases path with
      | nil => cases hallowed
      | cons name folder =>
          obtain ⟨hfree, hfolder⟩ := Bool.and_eq_true_iff.mp hallowed
          refine hmirrors.putBoth hproper (fun _ => of_decide_eq_true hfolder) ?_ _ _
          intro hdir
          replace hdir : concrete.file? (name :: folder) = some .dir := hdir
          simp [DataDir.isDir, Directory.holds_eq_isSome, hdir] at hfree
  | fillFile path content =>
      have hfile : concrete.isFile path = true := hallowed
      unfold DataDir.isFile at hfile
      split at hfile
      · next found hfound =>
          refine hmirrors.putBoth hproper (hmirrors.folder_of_file hfound) ?_ _ _
          intro hdir
          cases hfound.symm.trans hdir
      · cases hfile
  | removeFile path =>
      have hfile : concrete.isFile path = true := hallowed
      unfold DataDir.isFile at hfile
      split at hfile
      · next found hfound =>
          apply hmirrors.removeBoth
          intro hdir
          cases hfound.symm.trans hdir
      · cases hfile

/-- The effects of an atomic write on its temporary file. -/
theorem fill (hmirrors : Mirrors concrete plain) {write : AtomicWrite}
    (horphan : Orphan write.tmp) (hfolder : concrete.isDir write.folder = true)
    {changes : List DiskEffect} (hchanges : ∀ change ∈ changes, write.OnTmp change) :
    Mirrors (concrete.performAll changes) plain := by
  induction changes generalizing concrete with
  | nil => exact hmirrors
  | cons change rest ih =>
      have hput : ∀ content, Mirrors
          (Directory.put concrete concrete.length write.tmp (.file content)) plain :=
        fun content => hmirrors.putTmp horphan (of_decide_eq_true hfolder) _
      have hnext : Mirrors (concrete.perform change) plain := by
        rcases hchanges change List.mem_cons_self with rfl | ⟨content, rfl⟩ | rfl
        · exact hput []
        · exact hput content
        · exact hmirrors.removeTmp horphan
      refine ih hnext ?_ fun later hlater => hchanges later (List.mem_cons_of_mem _ hlater)
      rw [hnext.isDir_eq, ← hmirrors.isDir_eq]
      exact hfolder

theorem begins_eq (hmirrors : Mirrors concrete plain) (write : AtomicWrite) :
    write.begins concrete = write.begins plain := by
  simp only [AtomicWrite.begins, hmirrors.isDir_eq]

theorem succeeds_eq (hmirrors : Mirrors concrete plain) (write : AtomicWrite) :
    write.succeeds concrete = write.succeeds plain := by
  simp only [AtomicWrite.succeeds, hmirrors.begins_eq, hmirrors.isDir_eq]

/-- The temporary file takes the place of the file. -/
theorem renamed (hmirrors : Mirrors concrete plain) {write : AtomicWrite}
    (horphan : Orphan write.tmp) (hproper : ¬ Orphan write.path)
    (hfolder : concrete.isDir write.folder = true) (hfile : concrete.isDir write.path = false)
    (hwritten : concrete.file? write.tmp = some (.file write.bytes)) :
    Mirrors (concrete.performFile (.rename write.tmp write.path))
      (plain.put plain.length write.path (.file write.bytes)) := by
  have hremoved := hmirrors.removeTmp horphan
  have hkept : ∀ path, (concrete.perform (.removeFile write.tmp)).isDir path =
      concrete.isDir path := by
    intro path
    rw [hremoved.isDir_eq, hmirrors.isDir_eq]
  simp only [DataDir.performFile, hwritten]
  refine hremoved.putBoth hproper (fun _ => ?_) ?_ _ _
  · exact of_decide_eq_true ((hkept write.folder).trans hfolder)
  · exact of_decide_eq_false ((hkept write.path).trans hfile)

end Mirrors

theorem performFiles_onDisk (disk : DataDir) (changes : List DiskEffect) :
    disk.performFiles (changes.map .onDisk) = disk.performAll changes :=
  List.foldl_map

theorem performFiles_append (disk : DataDir) (first second : List FileEffect) :
    disk.performFiles (first ++ second) = (disk.performFiles first).performFiles second :=
  List.foldl_append

namespace AtomicWrite

variable (write : AtomicWrite)

theorem onTmp_fills : ∀ change ∈ write.fills, write.OnTmp change := by
  intro change hchange
  rcases List.mem_append.mp hchange with hfirst | hlast
  · rcases List.mem_cons.mp hfirst with rfl | hcut
    · exact Or.inl rfl
    · obtain ⟨cut, -, rfl⟩ := List.mem_map.mp hcut
      exact Or.inr (Or.inl ⟨_, rfl⟩)
  · exact Or.inr (Or.inl ⟨_, List.mem_singleton.mp hlast⟩)

theorem onTmp_failed {change : DiskEffect}
    (hchange : change ∈ write.fills.take (write.failure.getD write.fills.length) ++
      if write.removed then [.removeFile write.tmp] else []) : write.OnTmp change := by
  rcases List.mem_append.mp hchange with hfill | hremoval
  · exact write.onTmp_fills change (List.mem_of_mem_take hfill)
  · split at hremoval
    · exact Or.inr (Or.inr (List.mem_singleton.mp hremoval))
    · exact absurd hremoval List.not_mem_nil

theorem file?_fills (disk : DataDir) :
    (disk.performAll write.fills).file? write.tmp = some (.file write.bytes) := by
  rw [fills, DataDir.performAll_append]
  exact Directory.file?_put_self _ _ write.tmp (DirEntry.file write.bytes)

theorem begins_of_succeeds {disk : DataDir} (hsucceeds : write.succeeds disk = true) :
    disk.isDir write.folder = true ∧ disk.isDir write.path = false := by
  simp only [succeeds, begins, Bool.and_eq_true, Bool.not_eq_true'] at hsucceeds
  exact ⟨hsucceeds.1.1.1, hsucceeds.1.2⟩

end AtomicWrite

namespace FileStep

variable {concrete plain : DataDir}

/-- A crash within a step, before its last effect, leaves temporary files alone behind. -/
theorem effects_take {step : FileStep} (hmirrors : Mirrors concrete plain)
    (hproper : step.Proper) {cut : Nat} (hcut : cut < (step.effects concrete).length) :
    Mirrors (concrete.performFiles ((step.effects concrete).take cut)) plain := by
  cases step with
  | effect change =>
      simp only [effects] at hcut ⊢
      split at hcut
      · obtain rfl : cut = 0 := Nat.lt_one_iff.mp hcut
        exact hmirrors
      · cases hcut
  | atomicWrite write =>
      obtain ⟨hsweepable, -, htmp⟩ := hproper
      have horphan : Orphan write.tmp := ⟨htmp, hsweepable⟩
      simp only [effects, AtomicWrite.atomicWrite] at hcut ⊢
      split at hcut
      · next hsucceeds =>
          obtain ⟨hfolder, -⟩ := write.begins_of_succeeds hsucceeds
          rw [List.length_append, List.length_map] at hcut
          rw [if_pos hsucceeds, List.take_append_of_le_length (by
            rw [List.length_map]
            exact Nat.le_of_lt_succ hcut), ← List.map_take, performFiles_onDisk]
          exact hmirrors.fill horphan hfolder fun change hchange =>
            write.onTmp_fills change (List.mem_of_mem_take hchange)
      · next hfails =>
          split at hcut
          · next hbegins =>
              rw [if_neg hfails, if_pos hbegins, ← List.map_take, performFiles_onDisk]
              exact hmirrors.fill horphan (Bool.and_eq_true_iff.mp hbegins).1
                fun change hchange => write.onTmp_failed (List.mem_of_mem_take hchange)
          · cases hcut

/-- A step that has all of its effects does what it does where writes are atomic. -/
theorem effects_all {step : FileStep} (hmirrors : Mirrors concrete plain)
    (hproper : step.Proper) :
    Mirrors (concrete.performFiles (step.effects concrete)) (step.after plain) := by
  cases step with
  | effect change =>
      simp only [effects, after, ← hmirrors.allows_eq hproper]
      split
      · next hallowed => exact hmirrors.performBoth hproper hallowed
      · exact hmirrors
  | atomicWrite write =>
      obtain ⟨hsweepable, hname, htmp⟩ := hproper
      have horphan : Orphan write.tmp := ⟨htmp, hsweepable⟩
      have hplain : ¬ Orphan write.path := by
        rintro ⟨hname', -⟩
        rw [hname] at hname'
        cases hname'
      simp only [effects, after, AtomicWrite.atomicWrite, ← hmirrors.succeeds_eq]
      split
      · next hsucceeds =>
          obtain ⟨hfolder, hfile⟩ := write.begins_of_succeeds hsucceeds
          have hfilled := hmirrors.fill horphan hfolder write.onTmp_fills
          rw [performFiles_append, performFiles_onDisk]
          refine hfilled.renamed horphan hplain ?_ ?_ (write.file?_fills concrete)
          · rw [hfilled.isDir_eq, ← hmirrors.isDir_eq, hfolder]
          · rw [hfilled.isDir_eq, ← hmirrors.isDir_eq, hfile]
      · split
        · next hbegins =>
            rw [performFiles_onDisk]
            exact hmirrors.fill horphan (Bool.and_eq_true_iff.mp hbegins).1
              fun change hchange => write.onTmp_failed hchange
        · exact hmirrors

end FileStep

/-- A crash after any number of effects leaves the disk as it is after some of the steps, and
those that were over are among them. -/
theorem mirrors_crash {concrete plain : DataDir} {steps : List FileStep}
    (hmirrors : Mirrors concrete plain) (hproper : ∀ step ∈ steps, step.Proper) (cut : Nat) :
    ∃ count ≤ steps.length,
      Mirrors (concrete.performFiles ((allEffects concrete steps).take cut))
        (afterAll plain (steps.take count)) ∧
      ∀ ended ≤ steps.length, (allEffects concrete (steps.take ended)).length ≤ cut →
        ended ≤ count := by
  induction steps generalizing concrete plain cut with
  | nil =>
      refine ⟨0, Nat.le_refl _, ?_, fun ended hended _ => hended⟩
      rw [allEffects, List.take_nil]
      exact hmirrors
  | cons step rest ih =>
      have hstep := hproper step List.mem_cons_self
      by_cases hwithin : cut < (step.effects concrete).length
      · refine ⟨0, Nat.zero_le _, ?_, ?_⟩
        · rw [allEffects, List.take_append_of_le_length (Nat.le_of_lt hwithin)]
          exact FileStep.effects_take hmirrors hstep hwithin
        · intro ended hended hlength
          cases ended with
          | zero => exact Nat.le_refl _
          | succ ended =>
              rw [List.take_succ_cons, allEffects, List.length_append] at hlength
              omega
      · obtain ⟨count, hcount, hrest, hended⟩ := ih (FileStep.effects_all hmirrors hstep)
          (fun later hlater => hproper later (List.mem_cons_of_mem _ hlater))
          (cut - (step.effects concrete).length)
        refine ⟨count + 1, Nat.succ_le_succ hcount, ?_, ?_⟩
        · rw [allEffects, List.take_append, performFiles_append,
            List.take_of_length_le (Nat.le_of_not_lt hwithin)]
          exact hrest
        · intro ended hle hlength
          cases ended with
          | zero => exact Nat.zero_le _
          | succ ended =>
              rw [List.take_succ_cons, allEffects, List.length_append] at hlength
              exact Nat.succ_le_succ (hended ended (Nat.le_of_succ_le_succ hle) (by omega))

section Sweep

variable {disk : DataDir}

theorem performAll_removals (removed : List DirPath) (path : DirPath) :
    (disk.performAll (removed.map .removeFile)).file? path =
      if path ∈ removed then none else disk.file? path := by
  induction removed generalizing disk with
  | nil => rfl
  | cons first rest ih =>
      have hrest := @ih (disk.perform (.removeFile first))
      rw [file?_removeFile] at hrest
      refine hrest.trans ?_
      by_cases hmem : path ∈ rest
      · simp [hmem]
      · by_cases hfirst : path = first <;> simp [hmem, hfirst]

theorem nodup_removals (hnodup : (disk.map Prod.fst).Nodup) (removed : List DirPath) :
    ((disk.performAll (removed.map .removeFile)).map Prod.fst).Nodup := by
  induction removed generalizing disk with
  | nil => exact hnodup
  | cons first rest ih =>
      exact @ih (disk.perform (.removeFile first))
        (hnodup.sublist (List.filter_sublist.map Prod.fst))

theorem mem_of_mem_readDir {folder : DirPath} {name : String} {entry : DirEntry}
    (hread : (name, entry) ∈ disk.readDir folder) : (name :: folder, entry) ∈ disk := by
  obtain ⟨⟨path, found⟩, hmem, hsome⟩ := List.mem_filterMap.mp hread
  cases path with
  | nil => cases hsome
  | cons first parent =>
      simp only [Option.ite_none_right_eq_some, Option.some.injEq] at hsome
      obtain ⟨rfl, heq⟩ := hsome
      obtain ⟨rfl, rfl⟩ := Prod.mk.inj heq
      exact hmem

/-- What a sweep of a folder removes. -/
def orphansIn (disk : DataDir) (folder : DirPath) : List DirPath :=
  (disk.readDir folder).filterMap fun
    | (name, .file _) => if isOrphanTmp name then some (name :: folder) else none
    | (_, .dir) => none

theorem sweepTmpInDir_removals (folder : DirPath) (disk : DataDir) :
    sweepTmpInDir folder disk = ((orphansIn disk folder).map .removeFile, .ok ()) := by
  unfold sweepTmpInDir orphansIn
  rw [List.map_filterMap]
  congr 2
  funext entry
  obtain ⟨name, found⟩ := entry
  cases found with
  | dir => rfl
  | file content => by_cases horphan : isOrphanTmp name <;> simp [horphan]

theorem mem_orphansIn (hnodup : (disk.map Prod.fst).Nodup) {folder path : DirPath} :
    path ∈ orphansIn disk folder ↔
      ∃ name, path = name :: folder ∧ isOrphanTmp name = true ∧ disk.isFile path = true := by
  constructor
  · intro hmem
    obtain ⟨⟨name, found⟩, hread, hsome⟩ := List.mem_filterMap.mp hmem
    cases found with
    | dir => cases hsome
    | file content =>
        simp only [Option.ite_none_right_eq_some, Option.some.injEq] at hsome
        obtain ⟨horphan, rfl⟩ := hsome
        refine ⟨name, rfl, horphan, ?_⟩
        unfold DataDir.isFile
        rw [Directory.file?_of_nodup hnodup (mem_of_mem_readDir hread)]
  · rintro ⟨name, rfl, horphan, hfile⟩
    unfold DataDir.isFile at hfile
    split at hfile
    · next content hfound =>
        refine List.mem_filterMap.mpr ⟨_, DataDir.mem_readDir hfound, ?_⟩
        simp [horphan]
    · cases hfile

theorem isFile_removals (removed : List DirPath) (path : DirPath) :
    (disk.performAll (removed.map .removeFile)).isFile path = true ↔
      path ∉ removed ∧ disk.isFile path = true := by
  unfold DataDir.isFile
  rw [performAll_removals]
  by_cases hmem : path ∈ removed <;> simp [hmem]

/-- The folders of a sweep are swept one after another. -/
theorem inTurn_sweeps (hnodup : (disk.map Prod.fst).Nodup) (folders : List DirPath) :
    ∃ removed : List DirPath,
      (inTurn (folders.map sweepTmpInDir) disk).1 = removed.map .removeFile ∧
      ∀ path, path ∈ removed ↔ ∃ name folder, path = name :: folder ∧ folder ∈ folders ∧
        isOrphanTmp name = true ∧ disk.isFile path = true := by
  induction folders generalizing disk with
  | nil => exact ⟨[], rfl, fun path => by simp⟩
  | cons first rest ih =>
      have hfirst := sweepTmpInDir_removals first disk
      obtain ⟨removed, hremoved, hmem⟩ :=
        ih (nodup_removals hnodup (orphansIn disk first))
      refine ⟨orphansIn disk first ++ removed, ?_, fun path => ?_⟩
      · have hdone : (sweepTmpInDir first disk).2 = .ok () := by rw [hfirst]
        show (((sweepTmpInDir first).bind fun _ => inTurn (rest.map sweepTmpInDir)) disk).1 = _
        rw [DiskAction.bind_of_ok hdone, hfirst, List.map_append]
        exact congrArg _ hremoved
      · rw [List.mem_append, mem_orphansIn hnodup, hmem]
        constructor
        · rintro (⟨name, rfl, horphan, hfile⟩ | ⟨name, folder, rfl, hfolder, horphan, hfile⟩)
          · exact ⟨name, first, rfl, List.mem_cons_self, horphan, hfile⟩
          · exact ⟨name, folder, rfl, List.mem_cons_of_mem _ hfolder, horphan,
              ((isFile_removals _ _).mp hfile).2⟩
        · rintro ⟨name, folder, rfl, hfolder, horphan, hfile⟩
          rcases List.mem_cons.mp hfolder with rfl | hrest
          · exact Or.inl ⟨name, rfl, horphan, hfile⟩
          · by_cases hswept : name :: folder ∈ orphansIn disk first
            · exact Or.inl ((mem_orphansIn hnodup).mp hswept)
            · exact Or.inr ⟨name, folder, rfl, hrest, horphan,
                (isFile_removals _ _).mpr ⟨hswept, hfile⟩⟩

theorem mem_subfolders {folder path : DirPath} (hmem : path ∈ subfolders disk folder) :
    ∃ name, path = name :: folder := by
  obtain ⟨⟨name, found⟩, -, hsome⟩ := List.mem_filterMap.mp hmem
  cases found with
  | file content => cases hsome
  | dir => exact ⟨name, (Option.some.inj hsome).symm⟩

theorem subfolder_of_dir {folder : DirPath} {name : String}
    (hdir : disk.file? (name :: folder) = some .dir) : name :: folder ∈ subfolders disk folder :=
  List.mem_filterMap.mpr ⟨_, DataDir.mem_readDir hdir, rfl⟩

theorem sweepable_of_swept {folder : DirPath} (hswept : folder ∈ sweptDirs disk) :
    Sweepable folder := by
  unfold sweptDirs at hswept
  rcases List.mem_append.mp hswept with hfront | htags
  · rcases List.mem_append.mp hfront with hflat | hnotes
    · exact Or.inl hflat
    · obtain ⟨note, hnote, hin⟩ := List.mem_flatMap.mp hnotes
      obtain ⟨name, rfl⟩ := mem_subfolders hnote
      rcases List.mem_cons.mp hin with rfl | hresources
      · exact Or.inr ⟨name, Or.inl rfl⟩
      · exact Or.inr ⟨name, Or.inr (Or.inl (List.mem_singleton.mp hresources))⟩
  · obtain ⟨name, rfl⟩ := mem_subfolders htags
    exact Or.inr ⟨name, Or.inr (Or.inr rfl)⟩

theorem swept_of_sweepable (htree : disk.IsTree) {folder : DirPath} (hsweepable : Sweepable folder)
    (hdir : disk.file? folder = some .dir) : folder ∈ sweptDirs disk := by
  unfold sweptDirs
  rcases hsweepable with hflat | ⟨name, rfl | rfl | rfl⟩
  · exact List.mem_append_left _ (List.mem_append_left _ hflat)
  · exact List.mem_append_left _ (List.mem_append_right _
      (List.mem_flatMap.mpr ⟨_, subfolder_of_dir hdir, List.mem_cons_self⟩))
  · have hnote : disk.file? [name, "notes"] = some .dir :=
      htree.file? (htree.inFolder _ (Directory.file?_mem hdir) (List.cons_ne_nil _ _))
    exact List.mem_append_left _ (List.mem_append_right _
      (List.mem_flatMap.mpr ⟨_, subfolder_of_dir hnote,
        List.mem_cons_of_mem _ (List.mem_singleton.mpr rfl)⟩))
  · exact List.mem_append_right _ (subfolder_of_dir hdir)

end Sweep

/-- After a sweep the disk is the one where writes are atomic. -/
theorem Mirrors.swept {concrete plain : DataDir} (hmirrors : Mirrors concrete plain)
    (path : DirPath) :
    (concrete.performAll (sweepOrphanTmpFiles concrete).1).file? path = plain.file? path := by
  obtain ⟨removed, hremoved, hmem⟩ :=
    inTurn_sweeps hmirrors.tree.nodup (sweptDirs concrete)
  have heffects : (sweepOrphanTmpFiles concrete).1 = removed.map .removeFile := hremoved
  rw [heffects, performAll_removals]
  by_cases horphan : Orphan path
  · obtain ⟨hfile, hnone⟩ := hmirrors.orphans path horphan
    rw [hnone]
    cases path with
    | nil => exact absurd horphan id
    | cons name folder =>
        cases hfound : concrete.file? (name :: folder) with
        | none => split <;> rfl
        | some entry =>
            cases entry with
            | dir => exact absurd hfound hfile
            | file content =>
                have hfolder : concrete.file? folder = some .dir :=
                  hmirrors.folder_of_file hfound (List.cons_ne_nil name folder)
                have hgone : name :: folder ∈ removed := by
                  refine (hmem _).mpr ⟨name, folder, rfl,
                    swept_of_sweepable hmirrors.tree horphan.2 hfolder, horphan.1, ?_⟩
                  unfold DataDir.isFile
                  rw [hfound]
                rw [if_pos hgone]
  · rw [if_neg]
    · exact hmirrors.same path horphan
    · intro hgone
      obtain ⟨name, folder, rfl, hfolder, hname, -⟩ := (hmem path).mp hgone
      exact horphan ⟨hname, sweepable_of_swept hfolder⟩

/-- The backend crashes after any number of its effects.  The files it reads are then those
after some of its steps, of which none that was over is lost, and so is the whole disk once
the next start has swept it. -/
theorem crash_recovers {disk : DataDir} (htree : disk.IsTree)
    (hclean : ∀ path, Orphan path → disk.file? path = none) {steps : List FileStep}
    (hproper : ∀ step ∈ steps, step.Proper) (cut : Nat) :
    let crashed := disk.performFiles ((allEffects disk steps).take cut)
    ∃ count ≤ steps.length,
      (∀ path, ¬ Orphan path →
        crashed.file? path = (afterAll disk (steps.take count)).file? path) ∧
      (∀ path, (crashed.performAll (sweepOrphanTmpFiles crashed).1).file? path =
        (afterAll disk (steps.take count)).file? path) ∧
      ∀ ended ≤ steps.length, (allEffects disk (steps.take ended)).length ≤ cut →
        ended ≤ count := by
  have hstart : Mirrors disk disk := by
    refine ⟨htree, fun path _ => rfl, fun path horphan => ⟨?_, hclean path horphan⟩⟩
    rw [hclean path horphan]
    exact nofun
  obtain ⟨count, hcount, hmirrors, hended⟩ := mirrors_crash hstart hproper cut
  exact ⟨count, hcount, hmirrors.same, hmirrors.swept, hended⟩

namespace AtomicWritesWitness

def disk : DataDir :=
  [([], .dir), (keeplinDir, .dir), (offsetsDir, .dir), ("B" :: offsetsDir, .file [1])]

theorem disk_isTree : disk.IsTree := by
  refine ⟨by decide, ?_⟩
  have hall : disk.all (fun file => decide (file.1 ≠ [] → (file.1.tail, DirEntry.dir) ∈ disk)) =
      true := by
    decide
  exact fun file hfile => of_decide_eq_true (List.all_eq_true.mp hall file hfile)

theorem disk_clean (path : DirPath) (horphan : Orphan path) : disk.file? path = none := by
  cases path with
  | nil => exact absurd horphan id
  | cons name folder =>
      refine Directory.file?_eq_none_iff.mpr fun entry hmem => ?_
      have hname : isOrphanTmp name = false := by
        rcases List.mem_cons.mp hmem with heq | hmem
        · cases heq
        rcases List.mem_cons.mp hmem with heq | hmem
        · cases heq
          decide
        rcases List.mem_cons.mp hmem with heq | hmem
        · cases heq
          decide
        · cases List.mem_singleton.mp hmem
          decide
      rw [horphan.1] at hname
      cases hname

/-- The offset of a device is written, and the crash comes before the rename. -/
def steps : List FileStep :=
  [.atomicWrite ⟨"B", offsetsDir, [2, 3], [1], none, true⟩]

theorem crash_recovers_offset :
    let crashed := disk.performFiles ((allEffects disk steps).take 2)
    ∃ count ≤ steps.length,
      (∀ path, ¬ Orphan path →
        crashed.file? path = (afterAll disk (steps.take count)).file? path) ∧
      (∀ path, (crashed.performAll (sweepOrphanTmpFiles crashed).1).file? path =
        (afterAll disk (steps.take count)).file? path) ∧
      ∀ ended ≤ steps.length, (allEffects disk (steps.take ended)).length ≤ 2 → ended ≤ count := by
  refine crash_recovers disk_isTree disk_clean ?_ 2
  intro step hstep
  obtain rfl := List.mem_singleton.mp hstep
  exact ⟨Or.inl (by decide), by decide, by decide⟩

end AtomicWritesWitness

end Keeplin
