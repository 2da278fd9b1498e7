/-
The edit of a body as line operations.  The lines the old and the new body have
in common at both ends are kept; what lies between is paired up in order, and
what is left over is deleted or inserted.
-/
import Keeplin.NoteLines

namespace Keeplin

open VersionVector

/-- How many lines two bodies have in common at their heads. -/
def commonLength : List String → List String → Nat
  | old :: olds, new :: news => if old = new then commonLength olds news + 1 else 0
  | _, _ => 0

/-- The lines of a new body. -/
def newLines (body : String) : List String :=
  if body = "" then [] else splitBody body

namespace NoteLines

variable (lines : NoteLines)

def contentOf (id : Uuid) : String :=
  (lines.lines[id]?.map LineSnapshot.content).getD ""

def vvOf (id : Uuid) : VersionVector :=
  (lines.lines[id]?.map LineSnapshot.vv).getD ∅

def liveContents : List String :=
  lines.live.map lines.contentOf

def commonFront (news : List String) : Nat :=
  commonLength lines.liveContents news

/-- The lines in common at the ends, of those after the common front. -/
def commonBack (news : List String) : Nat :=
  commonLength (lines.liveContents.drop (lines.commonFront news)).reverse
    (news.drop (lines.commonFront news)).reverse

def oldMid (news : List String) : List Uuid :=
  (lines.live.drop (lines.commonFront news)).take
    (lines.live.length - lines.commonFront news - lines.commonBack news)

def newMid (news : List String) : List String :=
  (news.drop (lines.commonFront news)).take
    (news.length - lines.commonFront news - lines.commonBack news)

def paired (news : List String) : Nat :=
  min (lines.oldMid news).length (lines.newMid news).length

/-- The line the first new one goes after. -/
def insertAnchor (news : List String) : Option Uuid :=
  if 0 < lines.paired news then (lines.oldMid news)[lines.paired news - 1]?
  else if 0 < lines.commonFront news then lines.live[lines.commonFront news - 1]?
  else none

variable (device : String) (now : DateTime) (newId : Nat → Uuid)

def updateOps (pairs : List (Uuid × String)) : List LineOp :=
  pairs.filterMap fun pair =>
    if lines.contentOf pair.1 ≠ pair.2 then
      some (.update pair.1 pair.2 (bump (lines.vvOf pair.1) device) device now)
    else none

def deleteOps (ids : List Uuid) : List LineOp :=
  ids.map fun id => .delete id now (bump (lines.vvOf id) device) device now

/-- New lines one after the other, each with the order's vector counted once
more.  `position` numbers the ids that were made before. -/
def insertOps : Option Uuid → VersionVector → Nat → List String → List LineOp
  | _, _, _, [] => []
  | anchor, vv, position, content :: rest =>
      .insert anchor (newId position) content (bump vv device) device now ::
        insertOps (some (newId position)) (bump vv device) (position + 1) rest

def diffOps (news : List String) : List LineOp :=
  lines.updateOps device now ((lines.oldMid news).zip (lines.newMid news)) ++
    lines.deleteOps device now ((lines.oldMid news).drop (lines.paired news)) ++
      insertOps device now newId (lines.insertAnchor news) lines.vv 0
        ((lines.newMid news).drop (lines.paired news))

/-- Turn the lines into those of a body: the lines after it and the operations
that were applied.  A body that breaks a limit changes nothing. -/
def diffBody (body : String) : Except LimitViolation (NoteLines × List LineOp) :=
  (checkBody body).map fun _ =>
    let ops := lines.diffOps device now newId (newLines body)
    (lines.applyAll ops, ops)

/-- The ids a call makes are new to the note and to each other. -/
structure FreshIds : Prop where
  injective : ∀ first second, newId first = newId second → first = second
  order : ∀ position, newId position ∉ lines.order

end NoteLines

section CommonLength

theorem take_commonLength (olds news : List String) :
    olds.take (commonLength olds news) = news.take (commonLength olds news) := by
  fun_induction commonLength olds news with
  | case1 old olds news ih => simp [ih]
  | case2 old olds new news hne => simp
  | case3 olds news hnone => simp

theorem commonLength_le_left (olds news : List String) :
    commonLength olds news ≤ olds.length := by
  fun_induction commonLength olds news with
  | case1 old olds news ih => simpa using ih
  | case2 old olds new news hne => simp
  | case3 olds news hnone => simp

theorem commonLength_comm (olds news : List String) :
    commonLength olds news = commonLength news olds := by
  fun_induction commonLength olds news with
  | case1 old olds news ih => simp [commonLength, ih]
  | case2 old olds new news hne => simp [commonLength, Ne.symm hne]
  | case3 olds news hnone =>
      cases olds with
      | nil => cases news <;> rfl
      | cons old olds =>
          cases news with
          | nil => rfl
          | cons new news => exact absurd rfl (hnone old olds new news rfl)

theorem commonLength_le_right (olds news : List String) :
    commonLength olds news ≤ news.length := by
  rw [commonLength_comm]
  exact commonLength_le_left news olds

theorem commonLength_self (olds : List String) : commonLength olds olds = olds.length := by
  induction olds with
  | nil => rfl
  | cons old rest ih => simp [commonLength, ih]

end CommonLength

namespace NoteLines

variable {lines : NoteLines} {device : String} {now : DateTime} {newId : Nat → Uuid}

section Parts

variable (lines) (news : List String)

theorem length_liveContents : lines.liveContents.length = lines.live.length :=
  List.length_map _

theorem commonFront_le : lines.commonFront news ≤ lines.live.length := by
  rw [← length_liveContents]
  exact commonLength_le_left _ _

theorem commonFront_le_news : lines.commonFront news ≤ news.length :=
  commonLength_le_right _ _

theorem commonBack_le : lines.commonBack news ≤ lines.live.length - lines.commonFront news := by
  have hle := commonLength_le_left (lines.liveContents.drop (lines.commonFront news)).reverse
    (news.drop (lines.commonFront news)).reverse
  rwa [List.length_reverse, List.length_drop, length_liveContents] at hle

theorem commonBack_le_news : lines.commonBack news ≤ news.length - lines.commonFront news := by
  have hle := commonLength_le_right (lines.liveContents.drop (lines.commonFront news)).reverse
    (news.drop (lines.commonFront news)).reverse
  rwa [List.length_reverse, List.length_drop] at hle

/-- The common front reads the same. -/
theorem take_commonFront :
    (lines.live.take (lines.commonFront news)).map lines.contentOf =
      news.take (lines.commonFront news) := by
  rw [List.map_take]
  exact take_commonLength lines.liveContents news

/-- So does the common back. -/
theorem drop_commonBack :
    (lines.live.drop (lines.live.length - lines.commonBack news)).map lines.contentOf =
      news.drop (news.length - lines.commonBack news) := by
  have htake := take_commonLength (lines.liveContents.drop (lines.commonFront news)).reverse
    (news.drop (lines.commonFront news)).reverse
  change (List.take (lines.commonBack news) _) = List.take (lines.commonBack news) _ at htake
  rw [List.take_reverse, List.take_reverse, List.reverse_inj, List.drop_drop, List.drop_drop,
    List.length_drop, List.length_drop, length_liveContents] at htake
  have hfront := lines.commonFront_le news
  have hback := lines.commonBack_le news
  have hfrontNews := lines.commonFront_le_news news
  have hbackNews := lines.commonBack_le_news news
  rw [show lines.commonFront news + (lines.live.length - lines.commonFront news -
      lines.commonBack news) = lines.live.length - lines.commonBack news by omega,
    show lines.commonFront news + (news.length - lines.commonFront news -
      lines.commonBack news) = news.length - lines.commonBack news by omega] at htake
  rw [List.map_drop]
  exact htake

/-- The live lines are the common front, the changed middle and the common
back. -/
theorem live_eq_parts :
    lines.live = lines.live.take (lines.commonFront news) ++ lines.oldMid news ++
      lines.live.drop (lines.live.length - lines.commonBack news) := by
  have hfront := lines.commonFront_le news
  have hback := lines.commonBack_le news
  have hdrop : lines.live.drop (lines.live.length - lines.commonBack news) =
      (lines.live.drop (lines.commonFront news)).drop
        (lines.live.length - lines.commonFront news - lines.commonBack news) := by
    rw [List.drop_drop]
    congr 1
    omega
  rw [hdrop, oldMid, List.append_assoc, List.take_append_drop, List.take_append_drop]

theorem news_eq_parts :
    news = news.take (lines.commonFront news) ++ lines.newMid news ++
      news.drop (news.length - lines.commonBack news) := by
  have hfront := lines.commonFront_le_news news
  have hback := lines.commonBack_le_news news
  have hdrop : news.drop (news.length - lines.commonBack news) =
      (news.drop (lines.commonFront news)).drop
        (news.length - lines.commonFront news - lines.commonBack news) := by
    rw [List.drop_drop]
    congr 1
    omega
  rw [hdrop, newMid, List.append_assoc, List.take_append_drop, List.take_append_drop]

end Parts

section Ops

variable {target : NoteLines}

theorem mem_updateOps {pairs : List (Uuid × String)} {op : LineOp}
    (hop : op ∈ lines.updateOps device now pairs) : ∃ pair ∈ pairs,
      op = .update pair.1 pair.2 (bump (lines.vvOf pair.1) device) device now := by
  obtain ⟨pair, hpair, heq⟩ := List.mem_filterMap.mp hop
  split at heq
  · exact ⟨pair, hpair, (Option.some.inj heq).symm⟩
  · cases heq

theorem mem_deleteOps {ids : List Uuid} {op : LineOp}
    (hop : op ∈ lines.deleteOps device now ids) : ∃ id ∈ ids,
      op = .delete id now (bump (lines.vvOf id) device) device now := by
  obtain ⟨id, hid, heq⟩ := List.mem_map.mp hop
  exact ⟨id, hid, heq.symm⟩

theorem shown_of_mem_live {id : Uuid} (hid : id ∈ lines.live) :
    lines.shown id = some (lines.contentOf id) := by
  have hshown := (lines.mem_live.mp hid).2
  simp only [shown, contentOf] at hshown ⊢
  cases hline : lines.lines[id]? with
  | none => simp [hline] at hshown
  | some line => cases hdeleted : line.deletedAt <;> simp [hline, hdeleted] at hshown ⊢

/-- The updates give each paired line its new content and change nothing else. -/
theorem applyAll_updateOps {pairs : List (Uuid × String)}
    (hids : (pairs.map Prod.fst).Nodup)
    (hshown : ∀ pair ∈ pairs, target.shown pair.1 = some (lines.contentOf pair.1)) :
    (target.applyAll (lines.updateOps device now pairs)).order = target.order ∧
      (∀ id, id ∉ pairs.map Prod.fst →
        (target.applyAll (lines.updateOps device now pairs)).lines[id]? = target.lines[id]?) ∧
      ∀ pair ∈ pairs,
        (target.applyAll (lines.updateOps device now pairs)).shown pair.1 = some pair.2 := by
  induction pairs generalizing target with
  | nil => exact ⟨rfl, fun _ _ => rfl, fun pair hpair => absurd hpair List.not_mem_nil⟩
  | cons pair rest ih =>
      obtain ⟨id, content⟩ := pair
      obtain ⟨hid, hrest⟩ := List.nodup_cons.mp hids
      by_cases hsame : lines.contentOf id = content
      · have hops : lines.updateOps device now ((id, content) :: rest) =
            lines.updateOps device now rest := by simp [updateOps, hsame]
        rw [hops]
        obtain ⟨horder, hothers, hpairs⟩ := ih hrest fun other hother =>
          hshown other (List.mem_cons_of_mem _ hother)
        refine ⟨horder, fun other hother => ?_, fun other hother => ?_⟩
        · exact hothers other fun hmem => hother (List.mem_cons_of_mem _ hmem)
        · rcases List.mem_cons.mp hother with rfl | hmem
          · have hkept := hothers id hid
            have hfirst := hshown (id, content) List.mem_cons_self
            rw [shown] at hfirst ⊢
            rw [hkept, hfirst, hsame]
          · exact hpairs other hmem
      · have hops : lines.updateOps device now ((id, content) :: rest) =
            .update id content (bump (lines.vvOf id) device) device now ::
              lines.updateOps device now rest := by simp [updateOps, hsame]
        have hline := isSome_of_shown (by
          rw [hshown (id, content) List.mem_cons_self]
          rfl)
        rw [hops, applyAll_cons]
        have hne : ∀ {other : Uuid}, other ≠ id →
            (LineOp.update id content (bump (lines.vvOf id) device) device now).lineId ≠
              some other := fun hother heq => hother (Option.some.inj heq).symm
        obtain ⟨horder, hothers, hpairs⟩ := ih hrest
          fun other hother => by
            have hmem : other.1 ∈ rest.map Prod.fst := List.mem_map_of_mem hother
            have hother' : other.1 ≠ id := fun heq => hid (heq ▸ hmem)
            rw [shown_apply_of_ne (hne hother')]
            exact hshown other (List.mem_cons_of_mem _ hother)
        refine ⟨horder.trans (by simp [apply]), fun other hother => ?_, fun other hother => ?_⟩
        · rw [List.map_cons, List.mem_cons, not_or] at hother
          rw [hothers other hother.2, getElem?_apply_of_ne (hne hother.1)]
        · rcases List.mem_cons.mp hother with rfl | hmem
          · rw [shown, hothers id hid]
            exact shown_update content _ device now hline
          · exact hpairs other hmem

/-- The deletes hide their lines and change nothing else. -/
theorem applyAll_deleteOps {ids : List Uuid} (hids : ids.Nodup) :
    (target.applyAll (lines.deleteOps device now ids)).order = target.order ∧
      (∀ id, id ∉ ids →
        (target.applyAll (lines.deleteOps device now ids)).lines[id]? = target.lines[id]?) ∧
      ∀ id ∈ ids, (target.applyAll (lines.deleteOps device now ids)).shown id = none := by
  induction ids generalizing target with
  | nil => exact ⟨rfl, fun _ _ => rfl, fun id hid => absurd hid List.not_mem_nil⟩
  | cons head rest ih =>
      obtain ⟨hhead, hrest⟩ := List.nodup_cons.mp hids
      have hops : lines.deleteOps device now (head :: rest) =
          .delete head now (bump (lines.vvOf head) device) device now ::
            lines.deleteOps device now rest := rfl
      rw [hops, applyAll_cons]
      obtain ⟨horder, hothers, hgone⟩ := ih hrest
      refine ⟨horder.trans (by simp [apply]), fun id hid => ?_, fun id hid => ?_⟩
      · rw [List.mem_cons, not_or] at hid
        have hne : (LineOp.delete head now (bump (lines.vvOf head) device) device now).lineId ≠
            some id := fun heq => hid.1 (Option.some.inj heq).symm
        rw [hothers id hid.2, getElem?_apply_of_ne hne]
      · rcases List.mem_cons.mp hid with rfl | hmem
        · rw [shown, hothers id hhead]
          exact shown_delete now _ device now
        · exact hgone id hmem

/-- The inserts put one line after the other behind their anchor. -/
theorem applyAll_insertOps {contents : List String} {front back : List Uuid}
    {vv : VersionVector} {position : Nat} (horder : target.order = front ++ back)
    (hnodup : target.order.Nodup)
    (hinjective : ∀ first second, newId first = newId second → first = second)
    (hfresh : ∀ later, position ≤ later → newId later ∉ target.order) :
    (target.applyAll (insertOps device now newId front.getLast? vv position contents)).order =
        front ++ (List.range' position contents.length).map newId ++ back ∧
      (∀ id, id ∉ (List.range' position contents.length).map newId →
        (target.applyAll
            (insertOps device now newId front.getLast? vv position contents)).lines[id]? =
          target.lines[id]?) ∧
      ((List.range' position contents.length).map newId).filterMap
          (target.applyAll
            (insertOps device now newId front.getLast? vv position contents)).shown =
        contents := by
  induction contents generalizing target front vv position with
  | nil => simp [insertOps, horder]
  | cons content rest ih =>
      rw [insertOps, applyAll_cons]
      generalize hop : LineOp.insert front.getLast? (newId position) content (bump vv device)
        device now = op
      have hafter : (target.apply op).order = front ++ [newId position] ++ back := by
        rw [← hop]
        simp only [apply, horder]
        exact spliceAfter_getLast? _ (horder ▸ hnodup)
      have hafterNodup : (target.apply op).order.Nodup := by
        rw [← hop]
        simp only [apply]
        rw [nodup_spliceAfter]
        exact List.nodup_cons.mpr ⟨hfresh position (Nat.le_refl _), hnodup⟩
      have hlast : (front ++ [newId position]).getLast? = some (newId position) := by simp
      have hlater : ∀ later, position + 1 ≤ later → newId later ∉ (target.apply op).order := by
        intro later hle hmem
        rw [← hop] at hmem
        rcases mem_spliceAfter.mp hmem with hnew | hold
        · have heq := hinjective _ _ (List.mem_singleton.mp hnew)
          omega
        · exact hfresh later (by omega) hold
      obtain ⟨hplaced, hothers, hcontents⟩ :=
        ih hafter hafterNodup hlater
      rw [hlast] at hplaced hothers hcontents
      have hhead : newId position ∉ (List.range' (position + 1) rest.length).map newId := by
        intro hmem
        obtain ⟨later, hmem, heq⟩ := List.mem_map.mp hmem
        have hsame := hinjective _ _ heq
        have hbound := List.mem_range'_1.mp hmem
        omega
      rw [List.length_cons, List.range'_succ, List.map_cons]
      refine ⟨?_, fun id hid => ?_, ?_⟩
      · rw [hplaced]
        simp
      · rw [List.mem_cons, not_or] at hid
        rw [hothers id hid.2, getElem?_apply_of_ne]
        rw [← hop]
        exact fun heq => hid.1 (Option.some.inj heq).symm
      · have hshown : ((target.apply op).applyAll (insertOps device now newId
            (some (newId position)) (bump vv device) (position + 1) rest)).shown
              (newId position) = some content := by
          rw [shown, hothers _ hhead, ← hop]
          exact shown_insert _ _ _ _ _ _
        rw [List.filterMap_cons, hshown, hcontents]

end Ops

section Mirror

variable (lines) (news : List String)

theorem map_fst_pairs : ((lines.oldMid news).zip (lines.newMid news)).map Prod.fst =
    (lines.oldMid news).take (lines.paired news) := by
  rw [List.zip_eq_zip_take_min, List.map_fst_zip]
  · rfl
  · simp

theorem map_snd_pairs : ((lines.oldMid news).zip (lines.newMid news)).map Prod.snd =
    (lines.newMid news).take (lines.paired news) := by
  rw [List.zip_eq_zip_take_min, List.map_snd_zip]
  · rfl
  · simp

/-- The live lines before the place where new lines go. -/
def keptFront : List Uuid :=
  lines.live.take (lines.commonFront news) ++ (lines.oldMid news).take (lines.paired news)

/-- The new lines go behind the last of the kept front. -/
theorem insertAnchor_eq : lines.insertAnchor news = (lines.keptFront news).getLast? := by
  have hpaired : lines.paired news ≤ (lines.oldMid news).length := Nat.min_le_left _ _
  have hfront := lines.commonFront_le news
  unfold insertAnchor keptFront
  split
  · next hpos =>
      rw [List.getLast?_append, List.getLast?_take, if_neg (by omega)]
      cases hlast : (lines.oldMid news)[lines.paired news - 1]? with
      | none =>
          rw [List.getElem?_eq_none_iff] at hlast
          omega
      | some id => rfl
  · next hzero =>
      have htake : (lines.oldMid news).take (lines.paired news) = [] := by
        rw [Nat.eq_zero_of_not_pos hzero, List.take_zero]
      rw [htake, List.append_nil, List.getLast?_take]
      split
      · next hpos =>
          rw [if_neg (by omega)]
          cases hlast : lines.live[lines.commonFront news - 1]? with
          | none =>
              rw [List.getElem?_eq_none_iff] at hlast
              omega
          | some id => rfl
      · next hpos => rw [if_pos (Nat.eq_zero_of_not_pos hpos)]

/-- The order splits right behind the kept front. -/
theorem exists_order_split : ∃ before after, lines.order = before ++ after ∧
    before.getLast? = lines.insertAnchor news ∧
    before.filter (fun id => (lines.shown id).isSome) = lines.keptFront news ∧
    after.filter (fun id => (lines.shown id).isSome) =
      (lines.oldMid news).drop (lines.paired news) ++
        lines.live.drop (lines.live.length - lines.commonBack news) := by
  have hlive : lines.order.filter (fun id => (lines.shown id).isSome) =
      lines.keptFront news ++ ((lines.oldMid news).drop (lines.paired news) ++
        lines.live.drop (lines.live.length - lines.commonBack news)) := by
    rw [← filter_isSome_shown]
    change lines.live = _
    conv_lhs => rw [lines.live_eq_parts news]
    rw [keptFront, List.append_assoc, List.append_assoc,
      ← List.append_assoc (List.take (lines.paired news) _), List.take_append_drop]
  rw [insertAnchor_eq]
  cases hlast : (lines.keptFront news).getLast? with
  | none =>
      rw [List.getLast?_eq_none_iff.mp hlast, List.nil_append] at hlive
      exact ⟨[], lines.order, rfl, rfl, (List.getLast?_eq_none_iff.mp hlast).symm, hlive⟩
  | some anchor =>
      obtain ⟨init, hinit⟩ := List.getLast?_eq_some_iff.mp hlast
      rw [hinit, List.append_assoc, List.filter_eq_append_iff] at hlive
      obtain ⟨first, second, horder, hfirst, hsecond⟩ := hlive
      rw [List.singleton_append, List.filter_eq_cons_iff] at hsecond
      obtain ⟨hidden, after, hsplit, hnone, hanchor, hafter⟩ := hsecond
      refine ⟨first ++ hidden ++ [anchor], after, by rw [horder, hsplit]; simp, by simp, ?_,
        hafter⟩
      rw [List.filter_append, List.filter_append, hfirst, List.filter_eq_nil_iff.mpr hnone,
        List.filter_singleton, hanchor, hinit]
      simp

end Mirror

section Result

variable {news : List String}

/-- What a diff does: to the order, to the lines between the common ends, and
to nothing else. -/
structure Diffed (lines mirror : NoteLines) (newId : Nat → Uuid) (news : List String)
    (before after : List Uuid) : Prop where
  split : lines.order = before ++ after
  order : mirror.order = before ++ (List.range ((lines.newMid news).length -
    lines.paired news)).map newId ++ after
  others : ∀ id, id ∉ lines.oldMid news → (∀ position, newId position ≠ id) →
    mirror.lines[id]? = lines.lines[id]?
  pairs : ∀ pair ∈ (lines.oldMid news).zip (lines.newMid news),
    mirror.shown pair.1 = some pair.2
  deleted : ∀ id ∈ (lines.oldMid news).drop (lines.paired news), mirror.shown id = none
  inserted : ((List.range ((lines.newMid news).length - lines.paired news)).map
    newId).filterMap mirror.shown = (lines.newMid news).drop (lines.paired news)

theorem nodup_live (hnodup : lines.order.Nodup) : lines.live.Nodup :=
  hnodup.sublist lines.live_sublist

theorem oldMid_sublist (news : List String) : (lines.oldMid news).Sublist lines.live :=
  (List.take_sublist _ _).trans (List.drop_sublist _ _)

theorem applyAll_diffOps (device : String) (now : DateTime) (hnodup : lines.order.Nodup)
    (hfresh : lines.FreshIds newId)
    {before after : List Uuid} (hsplit : lines.order = before ++ after)
    (hlast : before.getLast? = lines.insertAnchor news) :
    Diffed lines (lines.applyAll (lines.diffOps device now newId news)) newId news before
      after := by
  have hmidNodup : (lines.oldMid news).Nodup := (nodup_live hnodup).sublist (oldMid_sublist news)
  have hfreshLive : ∀ position, ∀ id ∈ lines.oldMid news, newId position ≠ id := by
    intro position id hid heq
    have hmem := (lines.mem_live.mp ((oldMid_sublist news).mem hid)).1
    exact hfresh.order position (heq ▸ hmem)
  have hpairIds : (((lines.oldMid news).zip (lines.newMid news)).map Prod.fst).Nodup := by
    rw [map_fst_pairs]
    exact hmidNodup.sublist (List.take_sublist _ _)
  have hpairMem : ∀ pair ∈ (lines.oldMid news).zip (lines.newMid news),
      pair.1 ∈ lines.oldMid news := fun pair hpair => (List.of_mem_zip hpair).1
  obtain ⟨hupdateOrder, hupdateOthers, hupdatePairs⟩ :=
    applyAll_updateOps
      hpairIds fun pair hpair =>
        shown_of_mem_live ((oldMid_sublist news).mem (hpairMem pair hpair))
  generalize hupdated : lines.applyAll (lines.updateOps device now
    ((lines.oldMid news).zip (lines.newMid news))) = updated at *
  obtain ⟨hdeleteOrder, hdeleteOthers, hdeleteGone⟩ :=
    applyAll_deleteOps
      (hmidNodup.sublist (List.drop_sublist (lines.paired news) _))
  generalize hdeleted : updated.applyAll (lines.deleteOps device now
    ((lines.oldMid news).drop (lines.paired news))) = deleted at *
  have horder : deleted.order = before ++ after := by
    rw [hdeleteOrder, hupdateOrder, hsplit]
  have hsame : deleted.order = lines.order := horder.trans hsplit.symm
  obtain ⟨hinsertOrder, hinsertOthers, hinsertShown⟩ :=
    applyAll_insertOps
      horder (hsame ▸ hnodup) hfresh.injective fun later _ =>
        hsame ▸ hfresh.order later
  have hmirror : lines.applyAll (lines.diffOps device now newId news) =
      deleted.applyAll (insertOps device now newId before.getLast? lines.vv 0
        ((lines.newMid news).drop (lines.paired news))) := by
    rw [diffOps, applyAll_append, applyAll_append, hupdated, hdeleted, hlast]
  rw [← hmirror, List.length_drop, ← List.range_eq_range']
    at hinsertOrder hinsertOthers hinsertShown
  generalize lines.applyAll (lines.diffOps device now newId news) = mirror at *
  have hnewMem : ∀ id, (∀ position, newId position ≠ id) →
      id ∉ (List.range ((lines.newMid news).length - lines.paired news)).map newId := by
    intro id hid hmem
    obtain ⟨position, _, heq⟩ := List.mem_map.mp hmem
    exact hid position heq
  have hpairKept : ∀ pair ∈ (lines.oldMid news).zip (lines.newMid news),
      pair.1 ∉ (lines.oldMid news).drop (lines.paired news) := by
    intro pair hpair hmem
    have htake : pair.1 ∈ (lines.oldMid news).take (lines.paired news) := by
      rw [← map_fst_pairs]
      exact List.mem_map_of_mem hpair
    have hparts := List.take_append_drop (lines.paired news) (lines.oldMid news) ▸ hmidNodup
    exact (List.nodup_append.mp hparts).2.2 _ htake _ hmem rfl
  refine ⟨hsplit, hinsertOrder, ?_, ?_, ?_, hinsertShown⟩
  · intro id hmid hnew
    rw [hinsertOthers id (hnewMem id hnew),
      hdeleteOthers id fun hmem => hmid (List.mem_of_mem_drop hmem),
      hupdateOthers id fun hmem => ?_]
    rw [map_fst_pairs] at hmem
    exact hmid (List.mem_of_mem_take hmem)
  · intro pair hpair
    rw [shown, hinsertOthers _ (hnewMem _ fun position =>
        hfreshLive position _ (hpairMem pair hpair)),
      hdeleteOthers _ (hpairKept pair hpair)]
    exact hupdatePairs pair hpair
  · intro id hid
    rw [shown, hinsertOthers _ (hnewMem _ fun position =>
      hfreshLive position _ (List.mem_of_mem_drop hid))]
    exact hdeleteGone id hid

variable {mirror : NoteLines} {before after : List Uuid}

theorem filterMap_zip_shown {ids : List Uuid} {contents : List String}
    (hshown : ∀ pair ∈ ids.zip contents, mirror.shown pair.1 = some pair.2) :
    ((ids.zip contents).map Prod.fst).filterMap mirror.shown =
      (ids.zip contents).map Prod.snd := by
  rw [List.filterMap_map]
  have hall : ∀ pair ∈ ids.zip contents, (mirror.shown ∘ Prod.fst) pair = some pair.2 := hshown
  exact (List.filterMap_congr hall).trans (congrFun List.filterMap_eq_map _)

/-- Lines that are not in the middle and not new show what they did. -/
theorem Diffed.shown_others (hdiffed : Diffed lines mirror newId news before after)
    {id : Uuid} (hmid : id ∉ lines.oldMid news) (hnew : ∀ position, newId position ≠ id) :
    mirror.shown id = lines.shown id := by
  rw [shown, hdiffed.others id hmid hnew, shown]

theorem disjoint_parts (hnodup : lines.order.Nodup) (news : List String) :
    (∀ id ∈ lines.live.take (lines.commonFront news), id ∉ lines.oldMid news) ∧
      ∀ id ∈ lines.live.drop (lines.live.length - lines.commonBack news),
        id ∉ lines.oldMid news := by
  have hparts := lines.live_eq_parts news ▸ nodup_live hnodup
  obtain ⟨hfront, hback, hdisjoint⟩ := List.nodup_append.mp hparts
  constructor
  · exact fun id hid hmid => (List.nodup_append.mp hfront).2.2 id hid id hmid rfl
  · exact fun id hid hmid => hdisjoint id (List.mem_append.mpr (Or.inr hmid)) id hid rfl

/-- The new ids, in the order of the lines they are for. -/
def newIds (lines : NoteLines) (newId : Nat → Uuid) (news : List String) : List Uuid :=
  (List.range ((lines.newMid news).length - lines.paired news)).map newId

/-- Afterwards the live lines are the common ends around the lines that were
paired and the new ones. -/
theorem Diffed.live_eq (hdiffed : Diffed lines mirror newId news before after)
    (hnodup : lines.order.Nodup) (hfresh : lines.FreshIds newId)
    (hbefore : before.filter (fun id => (lines.shown id).isSome) = lines.keptFront news)
    (hafter : after.filter (fun id => (lines.shown id).isSome) =
      (lines.oldMid news).drop (lines.paired news) ++
        lines.live.drop (lines.live.length - lines.commonBack news)) :
    mirror.live = lines.keptFront news ++ lines.newIds newId news ++
      lines.live.drop (lines.live.length - lines.commonBack news) := by
  obtain ⟨hfrontMid, hbackMid⟩ := disjoint_parts hnodup news
  have hnewOrder : ∀ id ∈ lines.order, ∀ position, newId position ≠ id :=
    fun id hid position heq => hfresh.order position (heq ▸ hid)
  have hliveOrder : ∀ id ∈ lines.live, id ∈ lines.order := fun id hid => (lines.mem_live.mp hid).1
  -- Only a line that showed before can show in the old order.
  have hshows : ∀ part : List Uuid, (∀ id ∈ part, id ∈ lines.order) →
      part.filter (fun id => (mirror.shown id).isSome) =
        (part.filter fun id => (lines.shown id).isSome).filter
          fun id => (mirror.shown id).isSome := by
    intro part hpart
    rw [List.filter_filter]
    apply List.filter_congr
    intro id hid
    by_cases hmid : id ∈ lines.oldMid news
    · rw [shown_of_mem_live ((oldMid_sublist news).mem hmid)]
      simp
    · rw [hdiffed.shown_others hmid (hnewOrder id (hpart id hid)), Bool.and_self]
  have hends : ∀ id ∈ lines.live, id ∉ lines.oldMid news → (mirror.shown id).isSome = true := by
    intro id hid hmid
    rw [hdiffed.shown_others hmid (hnewOrder id (hliveOrder id hid)), shown_of_mem_live hid]
    rfl
  have hkept : (lines.keptFront news).filter (fun id => (mirror.shown id).isSome) =
      lines.keptFront news := by
    rw [List.filter_eq_self]
    intro id hid
    rcases List.mem_append.mp hid with hfront | hmid
    · exact hends id (List.mem_of_mem_take hfront) (hfrontMid id hfront)
    · rw [← map_fst_pairs] at hmid
      obtain ⟨pair, hpair, rfl⟩ := List.mem_map.mp hmid
      rw [hdiffed.pairs pair hpair]
      rfl
  have hnew : (lines.newIds newId news).filter (fun id => (mirror.shown id).isSome) =
      lines.newIds newId news := by
    rw [List.filter_eq_self, ← List.filterMap_length_eq_length, newIds, hdiffed.inserted]
    simp
  have hgone : ((lines.oldMid news).drop (lines.paired news)).filter
      (fun id => (mirror.shown id).isSome) = [] := by
    rw [List.filter_eq_nil_iff]
    intro id hid
    simp [hdiffed.deleted id hid]
  have hback : (lines.live.drop (lines.live.length - lines.commonBack news)).filter
      (fun id => (mirror.shown id).isSome) =
        lines.live.drop (lines.live.length - lines.commonBack news) := by
    rw [List.filter_eq_self]
    exact fun id hid => hends id (List.mem_of_mem_drop hid) (hbackMid id hid)
  rw [live, filter_isSome_shown, hdiffed.order, List.filter_append, List.filter_append,
    hshows before fun id hid => hdiffed.split ▸ List.mem_append_left _ hid,
    hshows after fun id hid => hdiffed.split ▸ List.mem_append_right _ hid, hbefore, hafter,
    List.filter_append, hkept, hgone, hback]
  change _ ++ (lines.newIds newId news).filter _ ++ _ = _
  rw [hnew, List.nil_append]

/-- And they read as the new body. -/
theorem Diffed.liveContents_eq (hdiffed : Diffed lines mirror newId news before after)
    (hnodup : lines.order.Nodup) (hfresh : lines.FreshIds newId)
    (hlive : mirror.live = lines.keptFront news ++ lines.newIds newId news ++
      lines.live.drop (lines.live.length - lines.commonBack news)) :
    mirror.live.filterMap mirror.shown = news := by
  obtain ⟨hfrontMid, hbackMid⟩ := disjoint_parts hnodup news
  have hends : ∀ part : List Uuid, (∀ id ∈ part, id ∈ lines.live) →
      (∀ id ∈ part, id ∉ lines.oldMid news) →
        part.filterMap mirror.shown = part.map lines.contentOf := by
    intro part hpart hmid
    have hall : ∀ id ∈ part, mirror.shown id = some (lines.contentOf id) := by
      intro id hid
      have horder := (lines.mem_live.mp (hpart id hid)).1
      rw [hdiffed.shown_others (hmid id hid) fun position heq =>
        hfresh.order position (heq ▸ horder)]
      exact shown_of_mem_live (hpart id hid)
    exact (List.filterMap_congr hall).trans (congrFun List.filterMap_eq_map _)
  rw [hlive, keptFront, List.filterMap_append, List.filterMap_append, List.filterMap_append,
    hends _ (fun _ hid => List.mem_of_mem_take hid) hfrontMid,
    hends _ (fun _ hid => List.mem_of_mem_drop hid) hbackMid, ← map_fst_pairs,
    filterMap_zip_shown hdiffed.pairs, map_snd_pairs, newIds, hdiffed.inserted,
    take_commonFront, drop_commonBack]
  conv_rhs => rw [lines.news_eq_parts news]
  rw [List.append_assoc (List.take _ news), List.take_append_drop]

theorem Diffed.nodup_order (hdiffed : Diffed lines mirror newId news before after)
    (hnodup : lines.order.Nodup) (hfresh : lines.FreshIds newId) : mirror.order.Nodup := by
  have hperm : mirror.order.Perm (lines.newIds newId news ++ lines.order) := by
    rw [hdiffed.order, hdiffed.split, ← List.append_assoc]
    exact List.perm_append_comm.append_right after
  rw [hperm.nodup_iff, List.nodup_append]
  refine ⟨?_, hnodup, ?_⟩
  · exact List.nodup_range.map_on fun first _ second _ heq => hfresh.injective first second heq
  · rintro id hnew other hother rfl
    obtain ⟨position, _, rfl⟩ := List.mem_map.mp hnew
    exact hfresh.order position hother

/-- A line that both bodies have at an end stays in its place and stays as it
is. -/
theorem Diffed.kept_ends (hdiffed : Diffed lines mirror newId news before after)
    (hnodup : lines.order.Nodup) (hfresh : lines.FreshIds newId)
    (hlive : mirror.live = lines.keptFront news ++ lines.newIds newId news ++
      lines.live.drop (lines.live.length - lines.commonBack news)) :
    mirror.live.take (lines.commonFront news) = lines.live.take (lines.commonFront news) ∧
      mirror.live.drop (mirror.live.length - lines.commonBack news) =
        lines.live.drop (lines.live.length - lines.commonBack news) ∧
      ∀ id ∈ lines.live.take (lines.commonFront news) ++
          lines.live.drop (lines.live.length - lines.commonBack news),
        mirror.lines[id]? = lines.lines[id]? := by
  have hfront := lines.commonFront_le news
  have hback := lines.commonBack_le news
  refine ⟨?_, ?_, fun id hid => ?_⟩
  · rw [hlive, keptFront, List.append_assoc, List.append_assoc]
    exact List.take_left' (by rw [List.length_take]; omega)
  · have hlength : mirror.live.length - lines.commonBack news =
        (lines.keptFront news ++ lines.newIds newId news).length := by
      rw [hlive, List.length_append, List.length_drop]
      omega
    rw [hlength, hlive, List.drop_left]
  · obtain ⟨hfrontMid, hbackMid⟩ := disjoint_parts hnodup news
    have horder : id ∈ lines.order := by
      rcases List.mem_append.mp hid with hmem | hmem
      · exact (lines.mem_live.mp (List.mem_of_mem_take hmem)).1
      · exact (lines.mem_live.mp (List.mem_of_mem_drop hmem)).1
    refine hdiffed.others id ?_ fun position heq => hfresh.order position (heq ▸ horder)
    rcases List.mem_append.mp hid with hmem | hmem
    · exact hfrontMid id hmem
    · exact hbackMid id hmem

/-- Lines that already read as the new body need no operation. -/
theorem diffOps_of_liveContents (hcontents : lines.liveContents = news) :
    lines.diffOps device now newId news = [] := by
  have hfront : lines.commonFront news = news.length := by
    rw [commonFront, hcontents, commonLength_self]
  have hlive : lines.live.length = news.length := by rw [← length_liveContents, hcontents]
  have hold : lines.oldMid news = [] := by
    rw [oldMid, hfront, ← hlive, List.drop_length, List.take_nil]
  have hnew : lines.newMid news = [] := by
    rw [newMid, hfront, List.drop_length, List.take_nil]
  simp [diffOps, hold, hnew, updateOps, deleteOps, insertOps]

end Result

section DiffBody

variable {body : String}

theorem joinLines_newLines (body : String) : joinLines (newLines body) = body := by
  unfold newLines
  split
  · next hempty =>
      rw [hempty]
      rfl
  · exact joinLines_splitBody body

theorem liveContents_eq : lines.liveContents = lines.live.filterMap lines.shown := by
  have hall : ∀ id ∈ lines.live, lines.shown id = some (lines.contentOf id) := fun id hid =>
    shown_of_mem_live hid
  exact ((List.filterMap_congr hall).trans (congrFun List.filterMap_eq_map _)).symm

theorem materialize_eq_liveContents : lines.materialize = joinLines lines.liveContents := by
  rw [materialize_eq, liveContents_eq, filterMap_shown_live]

theorem diffBody_eq (hbody : checkBody body = .ok ()) :
    lines.diffBody device now newId body =
      .ok (lines.applyAll (lines.diffOps device now newId (newLines body)),
        lines.diffOps device now newId (newLines body)) := by
  rw [diffBody, hbody]
  rfl

/-- After a diff the live lines read as the new body. -/
theorem liveContents_applyAll_diffOps (device : String) (now : DateTime)
    (hnodup : lines.order.Nodup) (hfresh : lines.FreshIds newId) (news : List String) :
    (lines.applyAll (lines.diffOps device now newId news)).liveContents = news := by
  obtain ⟨before, after, hsplit, hlast, hbefore, hafter⟩ := lines.exists_order_split news
  have hdiffed := applyAll_diffOps device now hnodup hfresh hsplit hlast
  have hlive := hdiffed.live_eq hnodup hfresh hbefore hafter
  rw [liveContents_eq]
  exact hdiffed.liveContents_eq hnodup hfresh hlive

theorem nodup_applyAll_diffOps (device : String) (now : DateTime)
    (hnodup : lines.order.Nodup) (hfresh : lines.FreshIds newId) (news : List String) :
    (lines.applyAll (lines.diffOps device now newId news)).order.Nodup := by
  obtain ⟨before, after, hsplit, hlast, _⟩ := lines.exists_order_split news
  exact (applyAll_diffOps device now hnodup hfresh hsplit hlast).nodup_order hnodup hfresh

theorem materialize_applyAll_diffOps (hnodup : lines.order.Nodup)
    (hfresh : lines.FreshIds newId) (body : String) :
    (lines.applyAll (lines.diffOps device now newId (newLines body))).materialize = body := by
  rw [materialize_eq_liveContents, liveContents_applyAll_diffOps device now hnodup hfresh,
    joinLines_newLines]

/-- A diff turns the lines into the body it was given, by operations that a copy
can replay, and leaves the lines at the common ends alone; the same diff again
finds nothing to do. -/
theorem diffBody_inverts_materialize (lines : NoteLines) (device : String) (now : DateTime)
    (newId : Nat → Uuid) (body : String) (hnodup : lines.order.Nodup)
    (hfresh : lines.FreshIds newId) (hbody : checkBody body = .ok ()) :
    ∃ mirror ops, lines.diffBody device now newId body = .ok (mirror, ops) ∧
      lines.applyAll ops = mirror ∧ mirror.materialize = body ∧ mirror.order.Nodup ∧
      mirror.live.take (lines.commonFront (newLines body)) =
        lines.live.take (lines.commonFront (newLines body)) ∧
      mirror.live.drop (mirror.live.length - lines.commonBack (newLines body)) =
        lines.live.drop (lines.live.length - lines.commonBack (newLines body)) ∧
      (∀ id ∈ lines.live.take (lines.commonFront (newLines body)) ++
          lines.live.drop (lines.live.length - lines.commonBack (newLines body)),
        mirror.lines[id]? = lines.lines[id]?) ∧
      ∀ device' now' newId', mirror.diffBody device' now' newId' body = .ok (mirror, []) := by
  obtain ⟨before, after, hsplit, hlast, hbefore, hafter⟩ :=
    lines.exists_order_split (newLines body)
  have hdiffed := applyAll_diffOps device now hnodup hfresh hsplit hlast
  have hlive := hdiffed.live_eq hnodup hfresh hbefore hafter
  have hcontents := liveContents_applyAll_diffOps device now hnodup hfresh (newLines body)
  obtain ⟨hfront, hback, hkept⟩ := hdiffed.kept_ends hnodup hfresh hlive
  refine ⟨_, _, diffBody_eq hbody, rfl, materialize_applyAll_diffOps hnodup hfresh body,
    hdiffed.nodup_order hnodup hfresh, hfront, hback, hkept, fun device' now' newId' => ?_⟩
  rw [diffBody_eq hbody, diffOps_of_liveContents hcontents, applyAll_nil]

end DiffBody

namespace BodyDiffWitness

def line (id : Uuid) (content : String) (deletedAt : Option DateTime) : LineSnapshot :=
  { id, content, createdAt := 1, updatedAt := 1, deletedAt, vv := ∅, lastWriter := "A" }

/-- Two live lines around a deleted one and one that has no entry. -/
def twoLines : NoteLines where
  order := [1, 2, 3, 4]
  lines := ((∅ : LineTable).insert 1 (line 1 "first" none)).insert 2 (line 2 "gone" (some 1))
    |>.insert 4 (line 4 "last" none)
  vv := ∅

theorem freshIds_twoLines : twoLines.FreshIds fun position => position + 5 where
  injective := fun _ _ heq => Nat.add_right_cancel heq
  order := fun position => by simp [twoLines]

theorem diffBody_inverts_materialize_twoLines :
    ∃ mirror ops, twoLines.diffBody "A" 2 (fun position => position + 5) "first\nnew\nlast" =
        .ok (mirror, ops) ∧
      twoLines.applyAll ops = mirror ∧ mirror.materialize = "first\nnew\nlast" ∧
      mirror.order.Nodup := by
  obtain ⟨mirror, ops, hdiff, happly, hbody, hnodup, _⟩ :=
    diffBody_inverts_materialize twoLines "A" 2 (fun position => position + 5)
      "first\nnew\nlast" (by decide) freshIds_twoLines (by decide)
  exact ⟨mirror, ops, hdiff, happly, hbody, hnodup⟩

end BodyDiffWitness

end NoteLines

end Keeplin
