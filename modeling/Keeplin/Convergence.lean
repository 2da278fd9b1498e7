/-
Delivering one collection of changes in different orders.  Both stores feed the
slot of the entity as a register, so they end alike under exactly the same
condition on the changes and on what was stored before.
-/
import Keeplin.SlotStore

namespace Keeplin

open VersionVector WinnerRegister

/-- Two devices that apply all of the changes end with the same version. -/
def Db.ChangesConverge (db : Db) (entity : Entity) (changes : List Change) : Prop :=
  ∀ first second : List Change, Covers changes first → Covers changes second →
    (db.applyAll first).slot entity = (db.applyAll second).slot entity

def FsTree.ChangesConverge (contentHash : List UInt8 → String) (place : Uuid → Nat)
    (tree : FsTree) (entity : Entity) (changes : List Change) : Prop :=
  ∀ first second : List Change, Covers changes first → Covers changes second →
    (tree.afterAll contentHash place first).slot entity =
      (tree.afterAll contentHash place second).slot entity

/-- A store that writes every winner where it is read converges when its slot
does as a register. -/
theorem SlotStore.converges_iff {T : Type} {entity : Entity} (S : SlotStore T entity)
    (hlands : ∀ store change, change.entity = entity → S.lands store change = true)
    {changes : List Change}
    (hentity : ∀ change ∈ changes, change.entity = entity) (store : T) :
    (∀ first second : List Change, Covers changes first → Covers changes second →
      S.slot (S.applyAll store first) = S.slot (S.applyAll store second)) ↔
        slotRegister.Converges (S.slot store) changes := by
  have hfollows : ∀ sequence, Covers changes sequence →
      S.slot (S.applyAll store sequence) =
        slotRegister.deliverAll (S.slot store) sequence := fun sequence hcovers =>
    S.slot_applyAll hlands
      (fun change hchange => hentity change (hcovers.sound change hchange)) store
  constructor
  · intro hsame first second hfirst hsecond
    rw [← hfollows first hfirst, ← hfollows second hsecond]
    exact hsame first second hfirst hsecond
  · intro hsame first second hfirst hsecond
    rw [hfollows first hfirst, hfollows second hsecond]
    exact hsame first second hfirst hsecond

/-- Delivery orders end alike exactly where the slot settles: no change beats
what is stored, or one of them is beaten by none and beats whatever the slot
can come to hold before it arrives. -/
theorem changesConverge_iff_settles {entity : Entity} {changes : List Change}
    (hentity : ∀ change ∈ changes, change.entity = entity)
    (hdistinct : ∀ first ∈ changes, ∀ second ∈ changes,
      first.version.vv = second.version.vv → first = second) :
    (∀ db : Db, db.ChangesConverge entity changes ↔
      slotRegister.Settles (db.slot entity) changes) ∧
    (entity.hasSidecar = true → ∀ contentHash place (tree : FsTree),
      tree.ChangesConverge contentHash place entity changes ↔
        slotRegister.Settles (tree.slot entity) changes) := by
  constructor
  · intro db
    have hconverges := (Db.slotStore entity).converges_iff (fun _ _ _ => rfl) hentity db
    exact hconverges.trans (slotRegister_converges_iff hdistinct)
  · intro hsidecar contentHash place tree
    have hplaced : entity.isPlaced = true := Entity.isPlaced_of_hasSidecar hsidecar
    have hconverges := (FsTree.slotStore contentHash place entity hplaced).converges_iff
      (FsTree.lands_of_hasSidecar place hsidecar) hentity tree
    exact hconverges.trans (slotRegister_converges_iff hdistinct)

namespace ConvergenceWitness

def emptyDb : Db := ⟨"A", ∅, ∅, ∅, ∅, ∅, [], [], none⟩

def emptyTree : FsTree := ⟨"A", [], [], [], [], []⟩

def edit (vv : VersionVector) (updatedAt : DateTime) (writer : String) : Change :=
  .notebookUpdate ⟨7, "title", 0, updatedAt, none, none, vv, writer⟩

/-- Device A writes twice with its clock set back in between; device B writes
once without having seen either. -/
def first : Change := edit (increment ∅ "A") 3 "A"

def second : Change := edit (increment (increment ∅ "A") "A") 1 "A"

def third : Change := edit (increment ∅ "B") 2 "B"

def changes : List Change := [first, second, third]

/-- Two orders of three changes with distinct vectors end in two versions. -/
theorem changes_diverge :
    (∀ change ∈ changes, change.entity = .notebook 7) ∧
      (∀ one ∈ changes, ∀ other ∈ changes, one.version.vv = other.version.vv → one = other) ∧
      ¬ emptyDb.ChangesConverge (.notebook 7) changes ∧
      ¬ emptyTree.ChangesConverge (fun _ => "") (fun _ => 0) (.notebook 7) changes := by
  have hcovers : Covers changes [second, third, first] := by
    constructor <;> decide
  have hbase : Covers changes changes := ⟨fun _ hitem => hitem, fun _ hitem => hitem⟩
  refine ⟨by decide, by decide, fun hsame => ?_, fun hsame => ?_⟩
  · exact absurd (hsame _ _ hbase hcovers) (by decide)
  · exact absurd (hsame _ _ hbase hcovers) (by decide)

/-- The same changes without the third one settle. -/
theorem changesConverge_iff_settles_edits :
    (∀ db : Db, db.ChangesConverge (.notebook 7) [first, second] ↔
      slotRegister.Settles (db.slot (.notebook 7)) [first, second]) ∧
    ((Entity.notebook 7).hasSidecar = true → ∀ contentHash place (tree : FsTree),
      tree.ChangesConverge contentHash place (.notebook 7) [first, second] ↔
        slotRegister.Settles (tree.slot (.notebook 7)) [first, second]) :=
  changesConverge_iff_settles (by decide) (by decide)

end ConvergenceWitness

end Keeplin
