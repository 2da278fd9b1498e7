/-
The versions of an entity that either backend tells: from the journal of the
database, or what a server answers for it, and from the logs of a note.
-/
import Keeplin.FsTree
import Keeplin.Db

namespace Keeplin

def DEFAULT_HISTORY_LIMIT : Nat := 100

structure EntityVersion (T : Type) where
  timestamp : DateTime
  deviceId : String
  entity : Option T

/-- The version in force at an instant, of versions told newest first. -/
def stateAt {T : Type} (versions : List (EntityVersion T)) (at_ : DateTime) :
    Option (EntityVersion T) :=
  versions.find? fun version => version.timestamp ≤ at_

def historyCap (limit : Nat) : Nat :=
  if limit = 0 then DEFAULT_HISTORY_LIMIT else limit

/-- What a change tells of a note. -/
def Change.noteVersion? (id : Uuid) : Change → Option (Option Note)
  | .noteCreate note | .noteUpdate note => if note.id = id then some (some note) else none
  | .noteDelete deleted _ _ _ => if deleted = id then some none else none
  | _ => none

def Change.notebookVersion? (id : Uuid) : Change → Option (Option Notebook)
  | .notebookCreate notebook | .notebookUpdate notebook =>
      if notebook.id = id then some (some notebook) else none
  | .notebookDelete deleted _ _ _ => if deleted = id then some none else none
  | _ => none

namespace Db

/-- The journal entries of an entity, the last ones first, unless a server
answers with a history of its own. -/
def entityHistory {T : Type} (version? : Change → Option (Option T))
    (serverEntityHistory : Option (List (EntityVersion T))) (limit : Nat) (db : Db) :
    List (EntityVersion T) :=
  serverEntityHistory.getD
    ((db.entityChanges.filterMap fun entry =>
        (version? entry.change).map fun entity =>
          ⟨entry.changedAt, db.deviceId, entity⟩).reverse.take (historyCap limit))

end Db

/-- The newest versions first, of one instant the one of the greater device. -/
def sortAndCap {T : Type} (versions : List (EntityVersion T)) (limit : Nat) :
    List (EntityVersion T) :=
  (versions.mergeSort fun first second =>
    second.timestamp < first.timestamp ∨
      (second.timestamp = first.timestamp ∧ second.deviceId ≤ first.deviceId)).take
    (historyCap limit)

def FsTree.noteHistory (id : Uuid) (limit : Nat) (tree : FsTree) : List (EntityVersion Note) :=
  sortAndCap
    ((tree.noteLogs id).flatten.map fun entry =>
      ⟨entry.timestamp, entry.deviceId, entry.upsert?.map Prod.snd⟩) limit

end Keeplin
