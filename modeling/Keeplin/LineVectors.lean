/-
The vectors on the operations of a diff.  A change of a line counts the line's
vector on, an insertion that of the order, one after the other; and since the
order's vector never counts back, no two insertions of a device carry the same
one, whatever comes in between.
-/
import Keeplin.BodyDiff

namespace Keeplin

open VersionVector

namespace VersionVector

/-- One vector strictly dominates another. -/
def Exceeds (later earlier : VersionVector) : Prop :=
  dominates later earlier = true ∧ dominates earlier later = false

/-- A vector that counts a device further on, and no device less. -/
structure CountsOn (device : String) (earlier later : VersionVector) : Prop where
  dominates : dominates later earlier = true
  count_lt : count earlier device < count later device

variable {device : String} {first second third : VersionVector}

theorem CountsOn.trans (hfirst : CountsOn device first second)
    (hsecond : CountsOn device second third) : CountsOn device first third where
  dominates := dominates_trans hsecond.dominates hfirst.dominates
  count_lt := Nat.lt_trans hfirst.count_lt hsecond.count_lt

theorem CountsOn.exceeds (hcounts : CountsOn device first second) : Exceeds second first := by
  refine ⟨hcounts.dominates, ?_⟩
  rw [Bool.eq_false_iff]
  intro hback
  exact absurd (dominates_iff.mp hback device) (Nat.not_le.mpr hcounts.count_lt)

theorem countsOn_increment (vv : VersionVector) (device : String) :
    CountsOn device vv (vv.increment device) where
  dominates := increment_dominates vv device
  count_lt := by
    rw [count_increment_self]
    exact Nat.lt_succ_self _

end VersionVector

theorem bump_eq (vv : VersionVector) (device : String) : bump vv device = vv.increment device :=
  rfl

theorem mergeInto_eq_join (target other : VersionVector) :
    mergeInto target other = join target other := by
  unfold mergeInto join
  congr 1
  funext vv entry
  simp only
  congr 1
  split
  · next hlt => exact (Nat.max_eq_right (Nat.le_of_lt hlt)).symm
  · next hle => exact (Nat.max_eq_left (Nat.not_lt.mp hle)).symm

@[simp] theorem count_mergeInto (target other : VersionVector) (device : String) :
    count (mergeInto target other) device = max (count target device) (count other device) := by
  rw [mergeInto_eq_join, count_join]

namespace LineOp

def vv : LineOp → VersionVector
  | .insert _ _ _ vv _ _ => vv
  | .update _ _ vv _ _ => vv
  | .delete _ _ vv _ _ => vv
  | .move _ _ vv _ _ => vv

/-- The line that an update or a delete changes. -/
def changedLine : LineOp → Option Uuid
  | .update lineId _ _ _ _ => some lineId
  | .delete lineId _ _ _ _ => some lineId
  | _ => none

/-- The vector of an insertion. -/
def insertVv : LineOp → Option VersionVector
  | .insert _ _ _ vv _ _ => some vv
  | _ => none

end LineOp

/-- The vectors of the insertions among operations. -/
def insertVvs (ops : List LineOp) : List VersionVector :=
  ops.filterMap LineOp.insertVv

namespace NoteLines

variable {lines mirror : NoteLines} {device : String} {now : DateTime} {newId : Nat → Uuid}
  {ops : List LineOp}

/-- A live line is in the table, so its vector is the one a change counts on. -/
theorem exceeds_bump_vvOf {id : Uuid} (hid : id ∈ lines.live) (device : String) :
    ∃ line, lines.lines[id]? = some line ∧ Exceeds (bump (lines.vvOf id) device) line.vv := by
  obtain ⟨line, hline⟩ :=
    Option.isSome_iff_exists.mp (isSome_of_shown (lines.mem_live.mp hid).2)
  have hvv : lines.vvOf id = line.vv := by
    rw [vvOf, hline]
    rfl
  rw [bump_eq, hvv]
  exact ⟨line, hline, (countsOn_increment line.vv device).exceeds⟩

theorem changedLine_of_mem_insertOps {contents : List String} {anchor : Option Uuid}
    {vv : VersionVector} {position : Nat} {op : LineOp}
    (hop : op ∈ insertOps device now newId anchor vv position contents) :
    op.changedLine = none := by
  induction contents generalizing anchor vv position with
  | nil => exact absurd hop List.not_mem_nil
  | cons content rest ih =>
      rcases List.mem_cons.mp hop with rfl | hrest
      · rfl
      · exact ih hrest

theorem exceeds_of_mem_diffOps {news : List String} {op : LineOp} {id : Uuid}
    (hop : op ∈ lines.diffOps device now newId news) (hchanged : op.changedLine = some id) :
    ∃ line, lines.lines[id]? = some line ∧ Exceeds op.vv line.vv := by
  have hlive : ∀ id ∈ lines.oldMid news, id ∈ lines.live := fun id hid =>
    (oldMid_sublist news).mem hid
  rcases List.mem_append.mp hop with hchanges | hinsert
  · rcases List.mem_append.mp hchanges with hupdate | hdelete
    · obtain ⟨pair, hpair, rfl⟩ := mem_updateOps hupdate
      obtain rfl := Option.some.inj hchanged
      exact exceeds_bump_vvOf (hlive pair.1 (List.of_mem_zip hpair).1) device
    · obtain ⟨deleted, hdeleted, rfl⟩ := mem_deleteOps hdelete
      obtain rfl := Option.some.inj hchanged
      exact exceeds_bump_vvOf (hlive deleted (List.mem_of_mem_drop hdeleted)) device
  · rw [changedLine_of_mem_insertOps hinsert] at hchanged
    cases hchanged

/-- Each insertion counts the vector of the one before it on. -/
theorem pairwise_insertOps (contents : List String) (anchor : Option Uuid) (vv : VersionVector)
    (position : Nat) :
    (vv :: insertVvs (insertOps device now newId anchor vv position contents)).Pairwise
      (CountsOn device) := by
  induction contents generalizing anchor vv position with
  | nil => exact List.pairwise_singleton _ _
  | cons content rest ih =>
      have hrest := ih (some (newId position)) (bump vv device) (position + 1)
      have hfirst : CountsOn device vv (bump vv device) := countsOn_increment vv device
      refine List.pairwise_cons.mpr ⟨fun later hlater => ?_, hrest⟩
      rcases List.mem_cons.mp hlater with rfl | hlater
      · exact hfirst
      · exact hfirst.trans ((List.pairwise_cons.mp hrest).1 later hlater)

theorem insertVvs_diffOps (news : List String) :
    insertVvs (lines.diffOps device now newId news) =
      insertVvs (insertOps device now newId (lines.insertAnchor news) lines.vv 0
        ((lines.newMid news).drop (lines.paired news))) := by
  have hupdates : insertVvs (lines.updateOps device now
      ((lines.oldMid news).zip (lines.newMid news))) = [] := by
    rw [insertVvs, List.filterMap_eq_nil_iff]
    intro op hop
    obtain ⟨pair, _, rfl⟩ := mem_updateOps hop
    rfl
  have hdeletes : insertVvs (lines.deleteOps device now
      ((lines.oldMid news).drop (lines.paired news))) = [] := by
    rw [insertVvs, List.filterMap_eq_nil_iff]
    intro op hop
    obtain ⟨id, _, rfl⟩ := mem_deleteOps hop
    rfl
  rw [insertVvs] at hupdates hdeletes
  rw [diffOps, insertVvs, List.filterMap_append, List.filterMap_append, hupdates, hdeletes,
    List.nil_append, List.nil_append]
  rfl

theorem pairwise_diffOps (news : List String) :
    (lines.vv :: insertVvs (lines.diffOps device now newId news)).Pairwise
      (CountsOn device) := by
  rw [insertVvs_diffOps]
  exact pairwise_insertOps _ _ _ _

theorem diffBody_cases {body : String}
    (hdiff : lines.diffBody device now newId body = .ok (mirror, ops)) :
    ops = lines.diffOps device now newId (newLines body) ∧ mirror = lines.applyAll ops := by
  unfold diffBody at hdiff
  cases hcheck : checkBody body with
  | error violation =>
      rw [hcheck] at hdiff
      cases hdiff
  | ok checked =>
      rw [hcheck] at hdiff
      cases hdiff
      exact ⟨rfl, rfl⟩

@[simp] theorem vv_modifyLine (lineId : Uuid) (change : LineSnapshot → LineSnapshot) :
    (lines.modifyLine lineId change).vv = lines.vv := by
  simp only [modifyLine]
  split <;> rfl

theorem le_count_apply (op : LineOp) (device : String) :
    count lines.vv device ≤ count (lines.apply op).vv device := by
  cases op with
  | insert afterLineId lineId content vv lastWriter updatedAt =>
      rw [apply, count_mergeInto]
      exact Nat.le_max_left _ _
  | update lineId content vv lastWriter updatedAt =>
      exact Nat.le_of_eq (congrArg (count · device) (vv_modifyLine ..).symm)
  | delete lineId deletedAt vv lastWriter updatedAt =>
      exact Nat.le_of_eq (congrArg (count · device) (vv_modifyLine ..).symm)
  | move lineIds afterLineId vv lastWriter updatedAt =>
      rw [apply, count_mergeInto]
      exact Nat.le_max_left _ _

theorem le_count_applyAll (ops : List LineOp) (device : String) :
    count lines.vv device ≤ count (lines.applyAll ops).vv device := by
  induction ops generalizing lines with
  | nil => exact Nat.le_refl _
  | cons op rest ih => exact Nat.le_trans (le_count_apply op device) ih

/-- An insertion leaves its vector in that of the order. -/
theorem count_insertVv_le {vv : VersionVector} (hvv : vv ∈ insertVvs ops) (device : String) :
    count vv device ≤ count (lines.applyAll ops).vv device := by
  induction ops generalizing lines with
  | nil => exact absurd hvv List.not_mem_nil
  | cons op rest ih =>
      obtain ⟨found, hfound, hinsert⟩ := List.mem_filterMap.mp hvv
      rcases List.mem_cons.mp hfound with rfl | hrest
      · refine Nat.le_trans ?_ (le_count_applyAll rest device)
        cases found with
        | insert afterLineId lineId content vv lastWriter updatedAt =>
            cases hinsert
            rw [apply, count_mergeInto]
            exact Nat.le_max_right _ _
        | update lineId content vv lastWriter updatedAt => cases hinsert
        | delete lineId deletedAt vv lastWriter updatedAt => cases hinsert
        | move lineIds afterLineId vv lastWriter updatedAt => cases hinsert
      · exact ih (List.mem_filterMap.mpr ⟨found, hrest, hinsert⟩)

inductive MirrorStep where
  | diff (now : DateTime) (newId : Nat → Uuid) (body : String)
  | remote (op : LineOp)

/-- The operations that a device emits in a run; a body over a limit emits none
and leaves the lines as they are. -/
def emittedOps (device : String) : List MirrorStep → NoteLines → List LineOp
  | [], _ => []
  | .diff now newId body :: rest, lines =>
      match lines.diffBody device now newId body with
      | .ok (mirror, ops) => ops ++ emittedOps device rest mirror
      | .error _ => emittedOps device rest lines
  | .remote op :: rest, lines => emittedOps device rest (lines.apply op)

/-- The insertions of a run count the device on, from what the order counts. -/
theorem pairwise_emittedOps (device : String) (steps : List MirrorStep) (lines : NoteLines) :
    (∀ vv ∈ insertVvs (emittedOps device steps lines), count lines.vv device < count vv device) ∧
      (insertVvs (emittedOps device steps lines)).Pairwise fun earlier later =>
        count earlier device < count later device := by
  induction steps generalizing lines with
  | nil => exact ⟨fun vv hvv => absurd hvv List.not_mem_nil, List.Pairwise.nil⟩
  | cons first rest ih =>
      cases first with
      | remote op =>
          obtain ⟨habove, hpairs⟩ := ih (lines.apply op)
          refine ⟨fun vv hvv => ?_, hpairs⟩
          exact Nat.lt_of_le_of_lt (le_count_apply op device) (habove vv hvv)
      | diff now newId body =>
          rw [emittedOps]
          cases hdiff : lines.diffBody device now newId body with
          | error violation => exact ih lines
          | ok result =>
              obtain ⟨mirror, ops⟩ := result
              obtain ⟨hops, rfl⟩ := diffBody_cases hdiff
              obtain ⟨habove, hpairs⟩ := ih (lines.applyAll ops)
              have hdiffs : (lines.vv :: insertVvs ops).Pairwise (CountsOn device) :=
                hops ▸ pairwise_diffOps (newLines body)
              obtain ⟨hfirst, hchain⟩ := List.pairwise_cons.mp hdiffs
              simp only [insertVvs, List.filterMap_append] at habove hpairs ⊢
              constructor
              · intro vv hvv
                rcases List.mem_append.mp hvv with hnow | hlater
                · exact (hfirst vv hnow).count_lt
                · exact Nat.lt_of_le_of_lt (le_count_applyAll ops device) (habove vv hlater)
              · refine List.pairwise_append.mpr ⟨hchain.imp CountsOn.count_lt, hpairs, ?_⟩
                -- What this diff inserted is in the order's vector by then.
                intro earlier hearlier later hlater
                exact Nat.lt_of_le_of_lt (count_insertVv_le hearlier device) (habove later hlater)

/-- Every operation of a diff counts on what it changes, and a device inserts
with no vector twice. -/
theorem diffBody_vectors (device : String) (lines : NoteLines) :
    (∀ now newId body mirror ops,
      lines.diffBody device now newId body = .ok (mirror, ops) →
        (∀ op ∈ ops, ∀ id, op.changedLine = some id →
          ∃ line, lines.lines[id]? = some line ∧ Exceeds op.vv line.vv) ∧
          (lines.vv :: insertVvs ops).Pairwise fun earlier later => Exceeds later earlier) ∧
      ∀ steps, (insertVvs (emittedOps device steps lines)).Nodup := by
  constructor
  · intro now newId body mirror ops hdiff
    obtain ⟨rfl, _⟩ := diffBody_cases hdiff
    refine ⟨fun op hop id hchanged => exceeds_of_mem_diffOps hop hchanged, ?_⟩
    exact (pairwise_diffOps (newLines body)).imp CountsOn.exceeds
  · intro steps
    refine (pairwise_emittedOps device steps lines).2.imp ?_
    rintro earlier later hlt rfl
    exact Nat.lt_irrefl _ hlt

namespace VectorsWitness

/-- A line that a body with two lines replaces. -/
def oneLine : NoteLines where
  order := [1]
  lines := (∅ : LineTable).insert 1
    { id := 1, content := "old", createdAt := 1, updatedAt := 1, deletedAt := none,
      vv := .ofList [("B", 2)], lastWriter := "B" }
  vv := .ofList [("B", 1)]

theorem diffBody_vectors_oneLine : ∃ mirror ops,
    oneLine.diffBody "A" 2 (fun position => position + 5) "new\nlast" = .ok (mirror, ops) ∧
      (∃ op ∈ ops, op.changedLine = some 1 ∧ Exceeds op.vv (.ofList [("B", 2)])) ∧
        (oneLine.vv :: insertVvs ops).Pairwise fun earlier later => Exceeds later earlier := by
  have hdiff : oneLine.diffBody "A" 2 (fun position => position + 5) "new\nlast" = .ok _ :=
    diffBody_eq (by decide)
  obtain ⟨hchanges, hinsertions⟩ := (diffBody_vectors "A" oneLine).1 _ _ _ _ _ hdiff
  have hupdate : ∃ op ∈ oneLine.diffOps "A" 2 (fun position => position + 5)
      (newLines "new\nlast"), op.changedLine = some 1 := by decide
  obtain ⟨op, hop, hchanged⟩ := hupdate
  obtain ⟨line, hline, hexceeds⟩ := hchanges op hop 1 hchanged
  obtain rfl : line = _ := Option.some.inj (hline.symm.trans (by rfl))
  exact ⟨_, _, hdiff, ⟨op, hop, hchanged, hexceeds⟩, hinsertions⟩

end VectorsWitness

end NoteLines

end Keeplin
