/-
Calls on the linking layer that run at the same time.  Each is cut where it waits:
for the lock of alias writes, for the index, for the store, and for the index
again.  The index is built page by page while other calls write.
-/
import Keeplin.LinkingIndex
import Keeplin.LabelledRun

namespace Keeplin

open StorageBackend

inductive LinkingOp where
  | createNote (note : Note)
  | updateNote (note : Note)
  | deleteNote (id : Uuid)
  | createNotebook (notebook : Notebook)
  | updateNotebook (notebook : Notebook)
  | deleteNotebook (id : Uuid)

/-- What a call does to the index once the store has taken its write. -/
inductive IndexUpdate where
  | upsertNote (stored : Note)
  | removeNote (id : Uuid)
  | upsertNotebook (stored : Notebook)
  | removeNotebook (id : Uuid)

def IndexUpdate.perform (idx : AliasIndex) : IndexUpdate → AliasIndex
  | .upsertNote stored => idx.upsertNote stored
  | .removeNote id => idx.removeNote id
  | .upsertNotebook stored => idx.upsertNotebook stored
  | .removeNotebook id => idx.removeNotebook id

/-- What has an alias. -/
inductive AliasKey where
  | note (id : Uuid)
  | notebook (id : Uuid)
deriving DecidableEq

def IndexUpdate.key : IndexUpdate → AliasKey
  | .upsertNote stored => .note stored.id
  | .removeNote id => .note id
  | .upsertNotebook stored => .notebook stored.id
  | .removeNotebook id => .notebook id

namespace LinkingOp

def key : LinkingOp → AliasKey
  | .createNote note | .updateNote note => .note note.id
  | .deleteNote id => .note id
  | .createNotebook notebook | .updateNotebook notebook => .notebook notebook.id
  | .deleteNotebook id => .notebook id

/-- A call that comes with an alias holds the lock of alias writes. -/
def isAliased : LinkingOp → Bool
  | .createNote note | .updateNote note => note.alias.isSome
  | .createNotebook notebook | .updateNotebook notebook => notebook.alias.isSome
  | .deleteNote _ | .deleteNotebook _ => false

end LinkingOp

section Prepare

variable (patterns : LinkSyntax)

/-- The note to store, where preparing it takes no index. -/
def prepareAlone (note : Note) : Option Note :=
  let note := patterns.refresh note
  if isInbox note.notebookId then some (LinkingBackend.isolated note)
  else if note.alias = none ∧ note.links = [] then some note
  else none

/-- The note to store by what the index has; `inbox` are the targets read to be in
the Inbox. -/
def prepareWith (idx : AliasIndex) (inbox : List Uuid) (note : Note) :
    Except StorageError Note :=
  let note := patterns.refresh note
  let looked := LinkingBackend.lookUp patterns note idx
  if looked.1 then
    .error (.conflict ("note alias '" ++ note.alias.getD "" ++ "' is already in use"))
  else .ok (LinkingBackend.linked note looked.2.1 inbox)

def ensureFreeWith (idx : AliasIndex) (notebook : Notebook) : Except StorageError Notebook :=
  if notebook.alias.any fun alias_ => idx.notebookAliasTaken alias_ notebook.id then
    .error (.conflict ("notebook alias '" ++ notebook.alias.getD "" ++ "' is already in use"))
  else .ok notebook

namespace LinkingOp

def prepareAlone : LinkingOp → Option LinkingOp
  | .createNote note => (Keeplin.prepareAlone patterns note).map .createNote
  | .updateNote note => (Keeplin.prepareAlone patterns note).map .updateNote
  | .createNotebook notebook =>
      if notebook.alias = none then some (.createNotebook notebook) else none
  | .updateNotebook notebook =>
      if notebook.alias = none then some (.updateNotebook notebook) else none
  | .deleteNote id => some (.deleteNote id)
  | .deleteNotebook id => some (.deleteNotebook id)

def prepareWith (idx : AliasIndex) (inbox : List Uuid) : LinkingOp → Except StorageError LinkingOp
  | .createNote note => (Keeplin.prepareWith patterns idx inbox note).map .createNote
  | .updateNote note => (Keeplin.prepareWith patterns idx inbox note).map .updateNote
  | .createNotebook notebook => (ensureFreeWith idx notebook).map .createNotebook
  | .updateNotebook notebook => (ensureFreeWith idx notebook).map .updateNotebook
  | .deleteNote id => .ok (.deleteNote id)
  | .deleteNotebook id => .ok (.deleteNotebook id)

/-- The write of the store, and what is left to do to the index. -/
def perform {S Clock : Type} (store : StorageBackend S Clock) (clock : Clock) (inner : S) :
    LinkingOp → Except StorageError (S × IndexUpdate)
  | .createNote note =>
      (store.createNote clock note inner).map fun (after, stored) => (after, .upsertNote stored)
  | .updateNote note =>
      (store.updateNote clock note inner).map fun (after, stored) => (after, .upsertNote stored)
  | .deleteNote id =>
      (store.deleteNote clock id inner).map fun after => (after, .removeNote id)
  | .createNotebook notebook =>
      (store.createNotebook clock notebook inner).map fun (after, stored) =>
        (after, .upsertNotebook stored)
  | .updateNotebook notebook =>
      (store.updateNotebook clock notebook inner).map fun (after, stored) =>
        (after, .upsertNotebook stored)
  | .deleteNotebook id =>
      (store.deleteNotebook clock id inner).map fun after => (after, .removeNotebook id)

end LinkingOp

end Prepare

/-- Where a call is.  `locked` is whether it holds the lock of alias writes. -/
inductive LinkingPhase where
  | queued (op : LinkingOp)
  | begun (op : LinkingOp)
  | building (op : LinkingOp)
  | ready (op : LinkingOp) (locked : Bool)
  | written (update : IndexUpdate) (locked : Bool)
  | done

/-- An index being built: the store when the listing began, and what was written
since. -/
structure IndexBuild (S : Type) where
  start : S
  touched : List AliasKey

structure LinkingState (S : Type) where
  inner : S
  aliasIndex : Option AliasIndex
  aliasWriteLock : Option Nat
  build : Option (IndexBuild S)
  phases : Nat → LinkingPhase

inductive LinkingAction (Clock : Type) where
  | enter (caller : Nat)
  | prepare (caller : Nat) (inbox : List Uuid)
  | buildIndex (caller : Nat)
  | finishBuild (caller : Nat) (notes : List Note) (notebooks : List Notebook)
      (inbox : List Uuid)
  | failBuild (caller : Nat)
  | write (caller : Nat) (clock : Clock)
  | index (caller : Nat)

section Build

variable {S Clock : Type} (store : StorageBackend S Clock) (build : IndexBuild S)

def IndexBuild.untouched {A : Type} (key : A → AliasKey) (list : List A) : List A :=
  list.filter fun item => key item ∉ build.touched

/-- Pages read one after another have what nobody wrote meanwhile as it was; of the
rest they may have anything. -/
def IndexBuild.collects (notes : List Note) (notebooks : List Notebook) : Bool :=
  match store.collectNotes build.start, store.collectNotebooks build.start with
  | .ok live, .ok liveNotebooks =>
      build.untouched (fun note => .note note.id) notes =
          build.untouched (fun note => .note note.id) live ∧
        build.untouched (fun notebook => .notebook notebook.id) notebooks =
          build.untouched (fun notebook => .notebook notebook.id) liveNotebooks
  | _, _ => false

end Build

namespace LinkingState

variable {S Clock : Type}

def setPhase (state : LinkingState S) (caller : Nat) (phase : LinkingPhase) : LinkingState S :=
  { state with phases := Function.update state.phases caller phase }

/-- The call returns, and with it its lock. -/
def finish (state : LinkingState S) (caller : Nat) (locked : Bool) : LinkingState S :=
  { state.setPhase caller .done with
    aliasWriteLock := if locked then none else state.aliasWriteLock }

def resolve (state : LinkingState S) (caller : Nat) (locked : Bool) :
    Except StorageError LinkingOp → LinkingState S
  | .ok op => state.setPhase caller (.ready op locked)
  | .error _ => state.finish caller locked

variable (store : StorageBackend S Clock) (patterns : LinkSyntax)

def step (state : LinkingState S) : LinkingAction Clock → Option (LinkingState S)
  | .enter caller =>
      match state.phases caller with
      | .queued op =>
          if !op.isAliased then some (state.setPhase caller (.begun op))
          else if state.aliasWriteLock = none then
            some { state.setPhase caller (.begun op) with aliasWriteLock := some caller }
          else none
      | _ => none
  | .prepare caller inbox =>
      match state.phases caller with
      | .begun op =>
          match op.prepareAlone patterns with
          | some prepared => some (state.setPhase caller (.ready prepared op.isAliased))
          | none =>
              match state.aliasIndex, state.build with
              | some idx, none =>
                  some (state.resolve caller op.isAliased (op.prepareWith patterns idx inbox))
              | _, _ => none
      | _ => none
  | .buildIndex caller =>
      match state.phases caller, state.aliasIndex, state.build with
      | .begun op, none, none =>
          if (op.prepareAlone patterns).isNone then
            some { state.setPhase caller (.building op) with build := some ⟨state.inner, []⟩ }
          else none
      | _, _, _ => none
  | .finishBuild caller notes notebooks inbox =>
      match state.phases caller, state.build with
      | .building op, some build =>
          if build.collects store notes notebooks then
            let idx := AliasIndex.fromSnapshots notes notebooks
            let built := { state with aliasIndex := some idx, build := none }
            some (built.resolve caller op.isAliased (op.prepareWith patterns idx inbox))
          else none
      | _, _ => none
  | .failBuild caller =>
      match state.phases caller with
      | .building op => some (LinkingState.finish { state with build := none } caller op.isAliased)
      | _ => none
  | .write caller clock =>
      match state.phases caller with
      | .ready op locked =>
          match op.perform store clock state.inner with
          | .error _ => some (state.finish caller locked)
          | .ok (inner, update) =>
              some { state.setPhase caller (.written update locked) with
                inner := inner
                build := state.build.map fun build =>
                  { build with touched := update.key :: build.touched } }
      | _ => none
  | .index caller =>
      match state.phases caller, state.build with
      | .written update locked, none =>
          some (LinkingState.finish
            { state with aliasIndex := state.aliasIndex.map update.perform } caller locked)
      | _, _ => none

end LinkingState

end Keeplin
