/-
What a stored delete still protects against.  The slot keeps the vector of the
current winner only, so changes the delete had seen are recognised for as long
as every winner after it dominates the delete, and no longer.
-/
import Keeplin.SlotStore

namespace Keeplin

open VersionVector

def Change.isDelete : Change → Bool
  | .noteDelete _ _ _ _ => true
  | .notebookDelete _ _ _ _ => true
  | .tagDelete _ _ _ _ => true
  | .noteTagRemove _ _ _ _ _ => true
  | .resourceDelete _ _ _ _ => true
  | _ => false

theorem FsTree.lands_of_isDelete (place : Uuid → Nat) (tree : FsTree) {change : Change}
    (hdelete : change.isDelete = true) : tree.lands place change = true := by
  cases change <;> first | rfl | contradiction

namespace SlotStore

variable {T : Type} {entity : Entity} (S : SlotStore T entity)

/-- After the delete and any first part of `changes`, a change whose vector the
delete dominates is discarded: applying it leaves the whole store alone. -/
def StaleDiscarded (store : T) (delete : Change) (changes : List Change) : Prop :=
  ∀ seen rest, changes = seen ++ rest → ∀ stale : Change, stale.entity = entity →
    dominates delete.version.vv stale.version.vv = true →
      S.apply (S.applyAll store (delete :: seen)) stale = S.applyAll store (delete :: seen)

/-- Every one of `changes` that takes the slot over when it arrives dominates
the delete. -/
def WinnersDominate (store : T) (delete : Change) (changes : List Change) : Prop :=
  ∀ seen change rest, changes = seen ++ change :: rest →
    change.version.beats (S.slot (S.applyAll store (delete :: seen))) = true →
      S.lands (S.applyAll store (delete :: seen)) change = true →
        dominates change.version.vv delete.version.vv = true

variable {store : T} {delete : Change} {changes : List Change}

theorem slot_apply_of_lands {change : Change} (hentity : change.entity = entity)
    (hbeats : change.version.beats (S.slot store) = true)
    (hlands : S.lands store change = true) :
    S.slot (S.apply store change) = .stored change.version := by
  rw [S.delivered store change hentity hbeats, if_pos hlands]

/-- As long as every winner dominates the delete, so does what is stored. -/
theorem exists_stored_dominating (hentity : delete.entity = entity)
    (hwins : delete.version.beats (S.slot store) = true)
    (hlands : S.lands store delete = true)
    (hchanges : ∀ change ∈ changes, change.entity = entity)
    (hdominate : S.WinnersDominate store delete changes) :
    ∃ version, S.slot (S.applyAll store (delete :: changes)) = .stored version ∧
      dominates version.vv delete.version.vv = true := by
  induction changes using List.reverseRecOn with
  | nil => exact ⟨delete.version, S.slot_apply_of_lands hentity hwins hlands, dominates_refl _⟩
  | append_singleton seen change ih =>
      have hseen : S.WinnersDominate store delete seen := by
        rintro before other rest rfl
        exact hdominate before other (rest ++ [change]) (by simp)
      obtain ⟨version, hslot, hdom⟩ := ih
        (fun other hother => hchanges other (List.mem_append.mpr (Or.inl hother))) hseen
      have hchange := hchanges change (by simp)
      rw [← List.cons_append, applyAll_concat]
      by_cases hbeats :
          change.version.beats (S.slot (S.applyAll store (delete :: seen))) = true
      · by_cases hland : S.lands (S.applyAll store (delete :: seen)) change = true
        · exact ⟨change.version, S.slot_apply_of_lands hchange hbeats hland,
            hdominate seen change [] rfl hbeats hland⟩
        · rw [S.delivered _ change hchange hbeats, if_neg hland]
          exact ⟨version, hslot, hdom⟩
      · rw [S.kept _ change hchange (Bool.eq_false_iff.mpr hbeats)]
        exact ⟨version, hslot, hdom⟩

theorem staleDiscarded_of_winnersDominate (hentity : delete.entity = entity)
    (hwins : delete.version.beats (S.slot store) = true)
    (hlands : S.lands store delete = true)
    (hchanges : ∀ change ∈ changes, change.entity = entity)
    (hdominate : S.WinnersDominate store delete changes) :
    S.StaleDiscarded store delete changes := by
  rintro seen rest rfl stale hstale hdominated
  have hseen : S.WinnersDominate store delete seen := by
    rintro before other after rfl
    exact hdominate before other (after ++ rest) (by simp)
  obtain ⟨version, hslot, hdom⟩ := S.exists_stored_dominating hentity hwins hlands
    (fun other hother => hchanges other (List.mem_append.mpr (Or.inl hother))) hseen
  apply S.kept _ stale hstale
  rw [hslot]
  exact Version.not_beats_of_dominated (dominates_trans hdom hdominated)

/-- Some change the delete dominates replaces a version that does not dominate
the delete. -/
theorem exists_stale_winner {current : Version} (hslot : S.slot store = .stored current)
    (hnot : dominates current.vv delete.version.vv = false) :
    ∃ stale : Change, stale.entity = entity ∧
      dominates delete.version.vv stale.version.vv = true ∧ S.apply store stale ≠ store := by
  have hmissed : ¬ ∀ device, count delete.version.vv device ≤ count current.vv device := by
    intro hle
    rw [dominates_iff.mpr hle] at hnot
    contradiction
  push Not at hmissed
  obtain ⟨device, hdevice⟩ := hmissed
  let vv : VersionVector := (∅ : VersionVector).insert device (count delete.version.vv device)
  obtain ⟨stale, hentity, hversion, hlands⟩ := S.edits store vv (current.timestamp + 1)
  have hvv : stale.version.vv = vv := congrArg Version.vv hversion
  have htimestamp : stale.version.timestamp = current.timestamp + 1 :=
    congrArg Version.timestamp hversion
  have hlater : current.timestamp < stale.version.timestamp := by
    rw [htimestamp]
    exact Int.lt_succ current.timestamp
  refine ⟨stale, hentity, ?_, fun hsame => ?_⟩
  · rw [hvv, dominates_iff]
    intro other
    rw [count_insert]
    split
    · next heq => rw [heq]
    · simp
  · have hfresh : dominates current.vv stale.version.vv = false := by
      rw [Bool.eq_false_iff, hvv]
      intro hdom
      have hle := dominates_iff.mp hdom device
      rw [count_insert, if_pos rfl] at hle
      omega
    have hbeats : stale.version.beats (S.slot store) = true := by
      rw [hslot]
      exact Version.beats_of_later hfresh hlater
    have htaken := S.slot_apply_of_lands hentity hbeats hlands
    rw [hsame, hslot] at htaken
    have htime := congrArg Version.timestamp (Slot.stored.inj htaken)
    exact absurd htime (ne_of_lt hlater)

/-- Stale changes are discarded exactly while the winners dominate the delete. -/
theorem staleDiscarded_iff (hentity : delete.entity = entity)
    (hwins : delete.version.beats (S.slot store) = true)
    (hlands : S.lands store delete = true)
    (hchanges : ∀ change ∈ changes, change.entity = entity) :
    S.StaleDiscarded store delete changes ↔ S.WinnersDominate store delete changes := by
  refine ⟨?_, S.staleDiscarded_of_winnersDominate hentity hwins hlands hchanges⟩
  rintro hdiscarded seen change rest rfl hbeats hland
  by_contra hnot
  have htaken : S.slot (S.applyAll store (delete :: (seen ++ [change]))) =
      .stored change.version := by
    rw [← List.cons_append, applyAll_concat]
    exact S.slot_apply_of_lands (hchanges change (by simp)) hbeats hland
  obtain ⟨stale, hstale, hdominated, hmoves⟩ :=
    S.exists_stale_winner htaken (Bool.eq_false_iff.mpr hnot)
  exact hmoves (hdiscarded (seen ++ [change]) rest (by simp) stale hstale hdominated)

end SlotStore

/-- Once a delete has been applied as the winner, both stores discard every
change it dominates, whatever else is applied in between, exactly when each
change that takes the entity over afterwards dominates the delete. -/
theorem staleEdits_discarded_iff {entity : Entity} {delete : Change}
    {changes : List Change} (hdelete : delete.isDelete = true)
    (hentity : delete.entity = entity)
    (hchanges : ∀ change ∈ changes, change.entity = entity) :
    (∀ db : Db, delete.version.beats (db.slot entity) = true →
      ((Db.slotStore entity).StaleDiscarded db delete changes ↔
        (Db.slotStore entity).WinnersDominate db delete changes)) ∧
    (∀ (hplaced : entity.isPlaced = true) contentHash place (tree : FsTree),
      delete.version.beats (tree.slot entity) = true →
      ((FsTree.slotStore contentHash place entity hplaced).StaleDiscarded tree delete
          changes ↔
        (FsTree.slotStore contentHash place entity hplaced).WinnersDominate tree delete
          changes)) := by
  constructor
  · intro db hwins
    exact (Db.slotStore entity).staleDiscarded_iff hentity hwins rfl hchanges
  · intro hplaced contentHash place tree hwins
    exact (FsTree.slotStore contentHash place entity hplaced).staleDiscarded_iff hentity
      hwins (tree.lands_of_isDelete place hdelete) hchanges

namespace StalenessWitness

def db : Db := ⟨"C", ∅, ∅, ∅, ∅, ∅, [], [], none⟩

def tree : FsTree := ⟨"C", [], [], [], [], []⟩

/-- Device A deletes the notebook it wrote before; device B edits it without
having seen that, later by the clock. -/
def delete : Change := .notebookDelete 7 10 (increment (increment ∅ "A") "A") "A"

def concurrent : Change :=
  .notebookUpdate ⟨7, "kept", 0, 20, none, none, increment ∅ "B", "B"⟩

def stale : Change :=
  .notebookUpdate ⟨7, "deleted", 0, 30, none, none, increment ∅ "A", "A"⟩

/-- The edit the delete had seen comes back after the concurrent one. -/
theorem staleEdit_resurrects :
    delete.version.beats (db.slot (.notebook 7)) = true ∧
      dominates delete.version.vv stale.version.vv = true ∧
      (db.applyAll [delete, concurrent, stale]).slot (.notebook 7) =
        .stored stale.version ∧
      (tree.afterAll (fun _ => "") (fun _ => 0) [delete, concurrent, stale]).slot
        (.notebook 7) = .stored stale.version ∧
      stale.version.live = true := by
  decide

theorem staleEdits_discarded_iff_concurrent :
    (∀ db : Db, delete.version.beats (db.slot (.notebook 7)) = true →
      ((Db.slotStore (.notebook 7)).StaleDiscarded db delete [concurrent] ↔
        (Db.slotStore (.notebook 7)).WinnersDominate db delete [concurrent])) ∧
    (∀ (hplaced : (Entity.notebook 7).isPlaced = true) contentHash place (tree : FsTree),
      delete.version.beats (tree.slot (.notebook 7)) = true →
      ((FsTree.slotStore contentHash place (.notebook 7) hplaced).StaleDiscarded tree
          delete [concurrent] ↔
        (FsTree.slotStore contentHash place (.notebook 7) hplaced).WinnersDominate tree
          delete [concurrent])) :=
  staleEdits_discarded_iff rfl rfl (by decide)

end StalenessWitness

end Keeplin
