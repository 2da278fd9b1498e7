/-
Two clients that edit one note from the same snapshot, each on its own, and then
receive each other's operations as they were sent.  An operation is applied as
it comes, so the clients agree where they changed different lines and put their
new lines into different gaps of the snapshot.
-/
import Mathlib.Data.Nat.Pairing
import Keeplin.BodyDiff

namespace Keeplin

namespace LineOp

/-- What a client can emit: changes of lines it has, and new lines next to
them. -/
def EmittedAt (isNew : Uuid → Prop) (order : List Uuid) : LineOp → Prop
  | .insert afterLineId lineId _ _ _ _ =>
      (∀ found ∈ afterLineId, found ∈ order) ∧ lineId ∉ order ∧ isNew lineId
  | .update lineId _ _ _ _ => lineId ∈ order
  | .delete lineId _ _ _ _ => lineId ∈ order
  | .move _ _ _ _ _ => False

end LineOp

/-- The lines that operations write. -/
def touched (ops : List LineOp) : List Uuid :=
  ops.filterMap LineOp.lineId

namespace NoteLines

def Emitted (isNew : Uuid → Prop) : NoteLines → List LineOp → Prop
  | _, [] => True
  | lines, op :: rest => op.EmittedAt isNew lines.order ∧ Emitted isNew (lines.apply op) rest

/-- Edit after edit of one client, each with its time and body; `call` numbers
the ids.  A body over a limit is not sent. -/
def emit (device : String) (newId : Nat → Nat → Uuid) :
    Nat → List (DateTime × String) → NoteLines → NoteLines × List LineOp
  | _, [], lines => (lines, [])
  | call, (now, body) :: rest, lines =>
      match lines.diffBody device now (newId call) body with
      | .ok (mirror, ops) =>
          let later := emit device newId (call + 1) rest mirror
          (later.1, ops ++ later.2)
      | .error _ => emit device newId (call + 1) rest lines

variable {lines target other : NoteLines} {ops : List LineOp} {op : LineOp} {id : Uuid}
  {isNew : Uuid → Prop} {device : String} {now : DateTime}

section Table

theorem getElem?_applyAll_of_notMem (hid : id ∉ touched ops) :
    (target.applyAll ops).lines[id]? = target.lines[id]? := by
  induction ops generalizing target with
  | nil => rfl
  | cons op rest ih =>
      have hne : op.lineId ≠ some id := fun heq => hid (by simp [touched, heq])
      have hrest : id ∉ touched rest := fun hmem => hid (by
        obtain ⟨later, hlater, heq⟩ := List.mem_filterMap.mp hmem
        exact List.mem_filterMap.mpr ⟨later, List.mem_cons_of_mem _ hlater, heq⟩)
      rw [applyAll_cons, ih hrest, getElem?_apply_of_ne hne]

/-- One operation shows the same in any two tables that have the line, or both
lack it. -/
theorem shown_apply_congr (hline : target.lines[id]?.isSome = other.lines[id]?.isSome)
    (hshown : op.lineId = some id ∨ target.shown id = other.shown id) :
    (target.apply op).lines[id]?.isSome = (other.apply op).lines[id]?.isSome ∧
      (target.apply op).shown id = (other.apply op).shown id := by
  by_cases hop : op.lineId = some id
  · cases op with
    | insert afterLineId lineId content vv lastWriter updatedAt =>
        cases hop
        refine ⟨?_, by rw [shown_insert, shown_insert]⟩
        simp [apply]
    | update lineId content vv lastWriter updatedAt =>
        cases hop
        simp only [shown, apply, getElem?_modifyLine, if_true, Option.isSome_map]
        refine ⟨hline, ?_⟩
        cases htarget : target.lines[id]? with
        | none =>
            rw [htarget, Option.isSome_none, eq_comm, Option.isSome_eq_false_iff,
              Option.isNone_iff_eq_none] at hline
            rw [hline]
        | some line =>
            rw [htarget] at hline
            obtain ⟨line', hother⟩ := Option.isSome_iff_exists.mp hline.symm
            rw [hother]
            rfl
    | delete lineId deletedAt vv lastWriter updatedAt =>
        cases hop
        refine ⟨?_, by rw [shown_delete, shown_delete]⟩
        simpa only [apply, getElem?_modifyLine, if_true, Option.isSome_map] using hline
    | move lineIds afterLineId vv lastWriter updatedAt => cases hop
  · rcases hshown with heq | heq
    · exact absurd heq hop
    · rw [getElem?_apply_of_ne hop, getElem?_apply_of_ne hop, shown_apply_of_ne hop,
        shown_apply_of_ne hop]
      exact ⟨hline, heq⟩

theorem shown_applyAll_congr (hline : target.lines[id]?.isSome = other.lines[id]?.isSome)
    (hshown : id ∈ touched ops ∨ target.shown id = other.shown id) :
    (target.applyAll ops).shown id = (other.applyAll ops).shown id := by
  induction ops generalizing target other with
  | nil => exact hshown.resolve_left List.not_mem_nil
  | cons op rest ih =>
      rw [applyAll_cons, applyAll_cons]
      by_cases hop : op.lineId = some id
      · obtain ⟨hline', hshown'⟩ := shown_apply_congr hline (Or.inl hop)
        exact ih hline' (Or.inr hshown')
      · refine ih ?_ (hshown.imp (fun hmem => ?_) fun heq => ?_)
        · rw [getElem?_apply_of_ne hop, getElem?_apply_of_ne hop]
          exact hline
        · obtain ⟨later, hlater, heq⟩ := List.mem_filterMap.mp hmem
          rcases List.mem_cons.mp hlater with rfl | hrest
          · exact absurd heq hop
          · exact List.mem_filterMap.mpr ⟨later, hrest, heq⟩
        · rw [shown_apply_of_ne hop, shown_apply_of_ne hop]
          exact heq

/-- Only a new line comes into the table. -/
theorem isSome_applyAll (hemitted : Emitted isNew lines ops) (hold : ¬isNew id) :
    (lines.applyAll ops).lines[id]?.isSome = lines.lines[id]?.isSome := by
  induction ops generalizing lines with
  | nil => rfl
  | cons op rest ih =>
      obtain ⟨hop, hrest⟩ := hemitted
      rw [applyAll_cons, ih hrest]
      cases op with
      | insert afterLineId lineId content vv lastWriter updatedAt =>
          rw [getElem?_apply_of_ne]
          exact fun heq => hold (Option.some.inj heq ▸ hop.2.2)
      | update lineId content vv lastWriter updatedAt =>
          rw [apply, getElem?_modifyLine]
          split <;> simp
      | delete lineId deletedAt vv lastWriter updatedAt =>
          rw [apply, getElem?_modifyLine]
          split <;> simp
      | move lineIds afterLineId vv lastWriter updatedAt => rfl

end Table

section Emitted

theorem emitted_append {first second : List LineOp} :
    Emitted isNew lines (first ++ second) ↔
      Emitted isNew lines first ∧ Emitted isNew (lines.applyAll first) second := by
  induction first generalizing lines with
  | nil => simp [Emitted]
  | cons op rest ih => simp [Emitted, ih, and_assoc]

/-- An operation keeps the lines of the order. -/
theorem mem_order_apply (hop : op.EmittedAt isNew lines.order) :
    id ∈ (lines.apply op).order ↔ id ∈ lines.order ∨
      ∃ afterLineId content vv lastWriter updatedAt,
        op = .insert afterLineId id content vv lastWriter updatedAt := by
  cases op with
  | insert afterLineId lineId content vv lastWriter updatedAt =>
      simp only [apply, mem_spliceAfter, List.mem_singleton, LineOp.insert.injEq]
      constructor
      · rintro (rfl | hmem)
        · exact Or.inr ⟨_, _, _, _, _, rfl, rfl, rfl, rfl, rfl, rfl⟩
        · exact Or.inl hmem
      · rintro (hmem | ⟨_, _, _, _, _, _, rfl, _⟩)
        · exact Or.inr hmem
        · exact Or.inl rfl
  | update lineId content vv lastWriter updatedAt => simp [apply]
  | delete lineId deletedAt vv lastWriter updatedAt => simp [apply]
  | move lineIds afterLineId vv lastWriter updatedAt => exact hop.elim

theorem mem_order_applyAll (hemitted : Emitted isNew lines ops)
    (hid : id ∈ (lines.applyAll ops).order) : id ∈ lines.order ∨ isNew id := by
  induction ops generalizing lines with
  | nil => exact Or.inl hid
  | cons op rest ih =>
      obtain ⟨hop, hrest⟩ := hemitted
      rcases ih hrest hid with hmem | hnew
      · rcases (mem_order_apply hop).mp hmem with hold | ⟨_, _, _, _, _, rfl⟩
        · exact Or.inl hold
        · exact Or.inr hop.2.2
      · exact Or.inr hnew

/-- Emitted operations write lines of the order, or new ones. -/
theorem mem_touched (hemitted : Emitted isNew lines ops) (hid : id ∈ touched ops) :
    id ∈ lines.order ∨ isNew id := by
  induction ops generalizing lines with
  | nil => exact absurd hid List.not_mem_nil
  | cons op rest ih =>
      obtain ⟨hop, hrest⟩ := hemitted
      obtain ⟨later, hlater, heq⟩ := List.mem_filterMap.mp hid
      rcases List.mem_cons.mp hlater with rfl | hmem
      · cases later with
        | insert afterLineId lineId content vv lastWriter updatedAt =>
            exact Or.inr (Option.some.inj heq ▸ hop.2.2)
        | update lineId content vv lastWriter updatedAt =>
            exact Or.inl (Option.some.inj heq ▸ hop)
        | delete lineId deletedAt vv lastWriter updatedAt =>
            exact Or.inl (Option.some.inj heq ▸ hop)
        | move lineIds afterLineId vv lastWriter updatedAt => cases heq
      · rcases ih hrest (List.mem_filterMap.mpr ⟨later, hmem, heq⟩) with horder | hnew
        · rcases (mem_order_apply hop).mp horder with hold | ⟨_, _, _, _, _, rfl⟩
          · exact Or.inl hold
          · exact Or.inr hop.2.2
        · exact Or.inr hnew

/-- Operations that leave the order as it is are emitted if the order has their
lines. -/
theorem emitted_of_changes (hops : ∀ op ∈ ops, ∀ order, (∀ id, op.lineId = some id → id ∈ order) →
      op.EmittedAt isNew order)
    (horder : ∀ op ∈ ops, ∀ target : NoteLines, (target.apply op).order = target.order)
    (hids : ∀ id ∈ touched ops, id ∈ lines.order) : Emitted isNew lines ops := by
  induction ops generalizing lines with
  | nil => trivial
  | cons op rest ih =>
      refine ⟨hops op List.mem_cons_self _ fun id heq => ?_, ?_⟩
      · exact hids id (List.mem_filterMap.mpr ⟨op, List.mem_cons_self, heq⟩)
      · refine ih (fun later hlater => hops later (List.mem_cons_of_mem _ hlater))
          (fun later hlater => horder later (List.mem_cons_of_mem _ hlater)) fun id hid => ?_
        obtain ⟨later, hlater, heq⟩ := List.mem_filterMap.mp hid
        rw [horder op List.mem_cons_self]
        exact hids id (List.mem_filterMap.mpr ⟨later, List.mem_cons_of_mem _ hlater, heq⟩)

theorem emitted_updateOps {pairs : List (Uuid × String)}
    (hids : ∀ pair ∈ pairs, pair.1 ∈ target.order) :
    Emitted isNew target (lines.updateOps device now pairs) := by
  refine emitted_of_changes (fun op hmem order horder => ?_) (fun op hmem other => ?_)
    fun id hid => ?_
  · obtain ⟨pair, _, rfl⟩ := mem_updateOps hmem
    exact horder pair.1 rfl
  · obtain ⟨pair, _, rfl⟩ := mem_updateOps hmem
    simp [apply]
  · obtain ⟨op, hmem, heq⟩ := List.mem_filterMap.mp hid
    obtain ⟨pair, hpair, rfl⟩ := mem_updateOps hmem
    exact Option.some.inj heq ▸ hids pair hpair

theorem emitted_deleteOps {ids : List Uuid} (hids : ∀ id ∈ ids, id ∈ target.order) :
    Emitted isNew target (lines.deleteOps device now ids) := by
  refine emitted_of_changes (fun op hmem order horder => ?_) (fun op hmem other => ?_)
    fun id hid => ?_
  · obtain ⟨id, _, rfl⟩ := mem_deleteOps hmem
    exact horder id rfl
  · obtain ⟨id, _, rfl⟩ := mem_deleteOps hmem
    simp [apply]
  · obtain ⟨op, hmem, heq⟩ := List.mem_filterMap.mp hid
    obtain ⟨id', hid', rfl⟩ := mem_deleteOps hmem
    exact Option.some.inj heq ▸ hids id' hid'

theorem emitted_insertOps {newId : Nat → Uuid} {contents : List String} {anchor : Option Uuid}
    {vv : VersionVector} {position : Nat} (hanchor : ∀ found ∈ anchor, found ∈ target.order)
    (hinjective : ∀ first second, newId first = newId second → first = second)
    (hfresh : ∀ later, position ≤ later → newId later ∉ target.order)
    (hnew : ∀ later, isNew (newId later)) :
    Emitted isNew target (insertOps device now newId anchor vv position contents) := by
  induction contents generalizing target anchor vv position with
  | nil => trivial
  | cons content rest ih =>
      rw [insertOps]
      refine ⟨⟨hanchor, hfresh position (Nat.le_refl _), hnew position⟩, ih ?_ ?_⟩
      · intro found hfound
        exact mem_spliceAfter.mpr (Or.inl (by simpa using hfound.symm))
      · intro later hle hmem
        rcases mem_spliceAfter.mp hmem with hsame | hold
        · have heq := hinjective _ _ (List.mem_singleton.mp hsame)
          omega
        · exact hfresh later (by omega) hold

theorem emitted_diffOps (device : String) (now : DateTime) {newId : Nat → Uuid}
    (news : List String) (hnodup : lines.order.Nodup) (hfresh : lines.FreshIds newId)
    (hnew : ∀ position, isNew (newId position)) :
    Emitted isNew lines (lines.diffOps device now newId news) := by
  have hmid : ∀ id ∈ lines.oldMid news, id ∈ lines.order := fun id hid =>
    lines.live_sublist.mem ((oldMid_sublist news).mem hid)
  have hpairs : ∀ pair ∈ (lines.oldMid news).zip (lines.newMid news),
      pair.1 ∈ lines.oldMid news := fun pair hpair => (List.of_mem_zip hpair).1
  obtain ⟨before, after, hsplit, hlast, _⟩ := lines.exists_order_split news
  have hanchor : ∀ found ∈ lines.insertAnchor news, found ∈ lines.order := by
    intro found hfound
    rw [← hlast] at hfound
    rw [hsplit]
    exact List.mem_append_left _ (List.mem_of_getLast? hfound)
  have hmidNodup : (lines.oldMid news).Nodup := (nodup_live hnodup).sublist (oldMid_sublist news)
  have hupdateOrder : (lines.applyAll (lines.updateOps device now
      ((lines.oldMid news).zip (lines.newMid news)))).order = lines.order :=
    (applyAll_updateOps
      (map_fst_pairs lines news ▸ hmidNodup.sublist (List.take_sublist _ _)) fun pair hpair =>
        shown_of_mem_live ((oldMid_sublist news).mem (hpairs pair hpair))).1
  have hdeleteOrder : ((lines.applyAll (lines.updateOps device now
      ((lines.oldMid news).zip (lines.newMid news)))).applyAll (lines.deleteOps device now
        ((lines.oldMid news).drop (lines.paired news)))).order =
      (lines.applyAll (lines.updateOps device now
        ((lines.oldMid news).zip (lines.newMid news)))).order :=
    (applyAll_deleteOps (hmidNodup.sublist (List.drop_sublist (lines.paired news) _))).1
  rw [hupdateOrder] at hdeleteOrder
  rw [diffOps, emitted_append, emitted_append, applyAll_append]
  refine ⟨⟨emitted_updateOps fun pair hpair => hmid _ (hpairs pair hpair),
    emitted_deleteOps fun id hid => ?_⟩, emitted_insertOps ?_ hfresh.injective ?_ hnew⟩
  · rw [hupdateOrder]
    exact hmid id (List.mem_of_mem_drop hid)
  · rw [hdeleteOrder]
    exact hanchor
  · rw [hdeleteOrder]
    exact fun later _ => hfresh.order later

/-- The ids of all calls are new to the note and to each other. -/
structure FreshCalls (lines : NoteLines) (newId : Nat → Nat → Uuid) : Prop where
  injective : ∀ call position call' position', newId call position = newId call' position' →
    call = call' ∧ position = position'
  order : ∀ call position, newId call position ∉ lines.order

/-- What a client has sent replays to its own lines, and each operation was one
it could emit. -/
theorem emit_spec {newId : Nat → Nat → Uuid} {call : Nat} {edits : List (DateTime × String)}
    (hnodup : lines.order.Nodup)
    (hinjective : ∀ call position call' position', newId call position = newId call' position' →
      call = call' ∧ position = position')
    (horder : ∀ later, call ≤ later → ∀ position, newId later position ∉ lines.order) :
    (emit device newId call edits lines).1 =
        lines.applyAll (emit device newId call edits lines).2 ∧
      Emitted (fun id => ∃ call position, id = newId call position) lines
        (emit device newId call edits lines).2 := by
  induction edits generalizing lines call with
  | nil => exact ⟨rfl, trivial⟩
  | cons edit rest ih =>
      obtain ⟨now, body⟩ := edit
      have hfresh : lines.FreshIds (newId call) :=
        ⟨fun first second heq => (hinjective call first call second heq).2,
          horder call (Nat.le_refl _)⟩
      cases hbody : checkBody body with
      | error violation =>
          have hdiff : lines.diffBody device now (newId call) body = .error violation := by
            rw [diffBody, hbody]
            rfl
          simp only [emit, hdiff]
          exact ih hnodup fun later hle => horder later (by omega)
      | ok _ =>
          simp only [emit, diffBody_eq hbody]
          have hemitted : Emitted (fun id => ∃ position, id = newId call position) lines
              (lines.diffOps device now (newId call) (newLines body)) :=
            emitted_diffOps device now (newLines body) hnodup hfresh
              fun position => ⟨position, rfl⟩
          obtain ⟨hmirror, hlater⟩ := ih
            (nodup_applyAll_diffOps device now hnodup hfresh (newLines body))
              fun later (hle : call + 1 ≤ later) position hmem => by
                rcases mem_order_applyAll hemitted hmem with hold | ⟨position', heq⟩
                · exact horder later (by omega) position hold
                · have hsame := (hinjective _ _ _ _ heq).1
                  omega
          refine ⟨by rw [hmirror, applyAll_append], ?_⟩
          rw [emitted_append]
          refine ⟨emitted_diffOps _ _ _ hnodup hfresh fun position => ⟨call, position, rfl⟩, hlater⟩

end Emitted

section Order

variable {base : List Uuid}

/-- A client's operations grow the gaps of the base in the same way on any lines
whose gaps begin with its own. -/
theorem order_applyAll_weave (own : Option Uuid → List Uuid) (hbase : base.Nodup)
    (hemitted : Emitted isNew lines ops) (horder : lines.order = weave base own)
    (hnodup : lines.order.Nodup) :
    ∃ grown : Option Uuid → List Uuid,
      (∀ slot, ∀ item ∈ grown slot, item ∈ own slot ∨ isNew item) ∧
      ∀ (target : NoteLines) (rest : Option Uuid → List Uuid),
        (∀ slot, ∀ item ∈ rest slot, ¬isNew item) →
        target.order = weave base (fun slot => own slot ++ rest slot) → target.order.Nodup →
          (target.applyAll ops).order = weave base (fun slot => grown slot ++ rest slot) ∧
            (target.applyAll ops).order.Nodup := by
  induction ops generalizing lines own with
  | nil => exact ⟨own, fun _ _ hitem => Or.inl hitem, fun _ _ _ htarget hnodup =>
      ⟨htarget, hnodup⟩⟩
  | cons op later ih =>
      obtain ⟨hop, hlater⟩ := hemitted
      cases op with
      | insert afterLineId lineId content vv lastWriter updatedAt =>
          obtain ⟨hanchor, hmissing, hnew⟩ := hop
          obtain ⟨slot, grown, hslot, hperm, hsplice⟩ :=
            spliceAfter_weave hbase (horder ▸ hanchor) lineId
          have hown := hsplice (fun _ => []) (by simpa using horder ▸ hnodup)
          simp only [List.append_nil] at hown
          have hafter : (lines.apply (.insert afterLineId lineId content vv lastWriter
              updatedAt)).order = weave base (Function.update own slot grown) := by
            rw [← hown, ← horder]
            rfl
          have hafterNodup : (lines.apply (.insert afterLineId lineId content vv lastWriter
              updatedAt)).order.Nodup :=
            nodup_spliceAfter.mpr (List.nodup_cons.mpr ⟨hmissing, hnodup⟩)
          obtain ⟨result, hitems, hresult⟩ := ih _ hlater hafter hafterNodup
          refine ⟨result, fun place item hitem => ?_, fun target rest hrest htarget htargetNodup =>
            ?_⟩
          · refine (hitems place item hitem).elim (fun hmem => ?_) Or.inr
            by_cases hplace : place = slot
            · subst hplace
              rw [Function.update_self, hperm.mem_iff, List.mem_cons] at hmem
              exact hmem.elim (fun heq => Or.inr (heq ▸ hnew)) Or.inl
            · rw [Function.update_of_ne hplace] at hmem
              exact Or.inl hmem
          · have hlineTarget : lineId ∉ target.order := by
              intro hmem
              rw [htarget, mem_weave] at hmem
              rw [horder, mem_weave, not_or] at hmissing
              rcases hmem with hbaseMem | ⟨place, hplace, hgap⟩
              · exact hmissing.1 hbaseMem
              · rcases List.mem_append.mp hgap with hgap | hgap
                · exact hmissing.2 ⟨place, hplace, hgap⟩
                · exact hrest place lineId hgap hnew
            refine hresult (target.apply _) rest hrest ?_
              (nodup_spliceAfter.mpr (List.nodup_cons.mpr ⟨hlineTarget, htargetNodup⟩))
            simp only [apply]
            rw [htarget]
            exact hsplice rest (htarget ▸ htargetNodup)
      | update lineId content vv lastWriter updatedAt =>
          obtain ⟨result, hitems, hresult⟩ := ih _ hlater (by simpa [apply] using horder)
            (by simpa [apply] using hnodup)
          refine ⟨result, hitems, fun target rest hrest htarget htargetNodup => ?_⟩
          exact hresult (target.apply _) rest hrest (by simpa [apply] using htarget)
            (by simpa [apply] using htargetNodup)
      | delete lineId deletedAt vv lastWriter updatedAt =>
          obtain ⟨result, hitems, hresult⟩ := ih _ hlater (by simpa [apply] using horder)
            (by simpa [apply] using hnodup)
          refine ⟨result, hitems, fun target rest hrest htarget htargetNodup => ?_⟩
          exact hresult (target.apply _) rest hrest (by simpa [apply] using htarget)
            (by simpa [apply] using htargetNodup)
      | move lineIds afterLineId vv lastWriter updatedAt => exact hop.elim

end Order

section Exchange

/-- A client: its device, the edits it makes and the ids it makes for them. -/
structure LineClient where
  device : String
  edits : List (DateTime × String)
  newId : Nat → Nat → Uuid

namespace LineClient

variable (client : LineClient) (base : NoteLines)

/-- Its own lines after its edits. -/
def mirror : NoteLines :=
  (emit client.device client.newId 0 client.edits base).1

/-- What it sent. -/
def sent : List LineOp :=
  (emit client.device client.newId 0 client.edits base).2

/-- What its new lines of a gap read. -/
def gapContents (slot : Option Uuid) : List String :=
  (gapAfter base.order (client.mirror base).order slot).filterMap (client.mirror base).shown

end LineClient

/-- The edits of two clients do not meet: a line that both wrote shows the same
on both sides, and the new lines of a gap read the same in either order. -/
structure Apart (base : NoteLines) (one other : LineClient) : Prop where
  lines : ∀ id ∈ base.order, id ∈ touched (one.sent base) → id ∈ touched (other.sent base) →
    (one.mirror base).shown id = (other.mirror base).shown id
  gaps : ∀ slot, IsSlot base.order slot →
    one.gapContents base slot ++ other.gapContents base slot =
      other.gapContents base slot ++ one.gapContents base slot

/-- The clients' ids are new to the note, and no two clients make the same. -/
structure FreshClients (base : NoteLines) (one other : LineClient) : Prop where
  ofOne : base.FreshCalls one.newId
  ofOther : base.FreshCalls other.newId
  disjoint : ∀ call position call' position', one.newId call position ≠ other.newId call' position'

theorem FreshClients.swap {base : NoteLines} {one other : LineClient}
    (hfresh : base.FreshClients one other) : base.FreshClients other one where
  ofOne := hfresh.ofOther
  ofOther := hfresh.ofOne
  disjoint := fun call position call' position' heq =>
    hfresh.disjoint call' position' call position heq.symm

/-- The ids a client makes. -/
def LineClient.Makes (client : LineClient) (id : Uuid) : Prop :=
  ∃ call position, id = client.newId call position

variable {base : NoteLines} {one other : LineClient}

theorem LineClient.sent_spec {client : LineClient} (hnodup : base.order.Nodup)
    (hfresh : base.FreshCalls client.newId) :
    client.mirror base = base.applyAll (client.sent base) ∧
      Emitted client.Makes base (client.sent base) :=
  emit_spec hnodup hfresh.injective fun later _ => hfresh.order later

theorem FreshCalls.notMem_of_makes {client : LineClient} {id : Uuid}
    (hfresh : base.FreshCalls client.newId) (hmakes : client.Makes id) : id ∉ base.order := by
  obtain ⟨call, position, rfl⟩ := hmakes
  exact hfresh.order call position

theorem FreshClients.not_makes {id : Uuid} (hfresh : base.FreshClients one other)
    (hone : one.Makes id) : ¬other.Makes id := by
  rintro ⟨call', position', heq'⟩
  obtain ⟨call, position, heq⟩ := hone
  exact hfresh.disjoint call position call' position' (heq.symm.trans heq')

/-- The gaps a client leaves: they can be read off its lines, and its operations
make them in front of another's. -/
theorem LineClient.exists_gaps (hnodup : base.order.Nodup)
    (hfresh : base.FreshClients one other) :
    ∃ gaps : Option Uuid → List Uuid, (∀ slot, ∀ item ∈ gaps slot, one.Makes item) ∧
      (one.mirror base).order = weave base.order gaps ∧ (one.mirror base).order.Nodup ∧
      ∀ (target : NoteLines) (rest : Option Uuid → List Uuid),
        (∀ slot, ∀ item ∈ rest slot, other.Makes item) → target.order = weave base.order rest →
          target.order.Nodup →
          (target.applyAll (one.sent base)).order =
            weave base.order fun slot => gaps slot ++ rest slot := by
  obtain ⟨hmirror, hemitted⟩ := one.sent_spec hnodup hfresh.ofOne
  obtain ⟨gaps, hitems, hreplay⟩ := order_applyAll_weave (fun _ => []) hnodup hemitted
    (by simp) hnodup
  refine ⟨gaps, fun slot item hitem => (hitems slot item hitem).resolve_left List.not_mem_nil,
    ?_, ?_, fun target rest hrest htarget htargetNodup => ?_⟩
  · have hown := (hreplay base (fun _ => []) (by simp) (by simp) hnodup).1
    rw [hmirror, hown]
    simp
  · rw [hmirror]
    exact (hreplay base (fun _ => []) (by simp) (by simp) hnodup).2
  · exact (hreplay target rest (fun slot item hitem hmakes =>
      hfresh.not_makes hmakes (hrest slot item hitem)) (by simpa using htarget) htargetNodup).1

/-- What a line shows in the end: what the client that wrote it last shows. -/
theorem LineClient.shown_exchange {id : Uuid} (hnodup : base.order.Nodup)
    (hfresh : base.FreshClients one other) :
    (id ∈ touched (other.sent base) →
      ((one.mirror base).applyAll (other.sent base)).shown id = (other.mirror base).shown id) ∧
    (id ∉ touched (other.sent base) →
      ((one.mirror base).applyAll (other.sent base)).shown id = (one.mirror base).shown id) := by
  obtain ⟨honeMirror, honeEmitted⟩ := one.sent_spec hnodup hfresh.ofOne
  obtain ⟨hotherMirror, hotherEmitted⟩ := other.sent_spec hnodup hfresh.ofOther
  constructor
  · intro hid
    -- The other client wrote no line that this one made.
    have hold : ¬one.Makes id := by
      intro hmakes
      rcases mem_touched hotherEmitted hid with horder | hother
      · exact hfresh.ofOne.notMem_of_makes hmakes horder
      · exact hfresh.not_makes hmakes hother
    rw [hotherMirror]
    refine shown_applyAll_congr ?_ (Or.inl hid)
    rw [honeMirror, isSome_applyAll honeEmitted hold]
  · intro hid
    rw [shown, getElem?_applyAll_of_notMem hid, shown]

theorem LineClient.shown_exchange_comm {id : Uuid} (hnodup : base.order.Nodup)
    (hfresh : base.FreshClients one other) (hapart : base.Apart one other) :
    ((one.mirror base).applyAll (other.sent base)).shown id =
      ((other.mirror base).applyAll (one.sent base)).shown id := by
  obtain ⟨honeMirror, honeEmitted⟩ := one.sent_spec hnodup hfresh.ofOne
  obtain ⟨hotherMirror, hotherEmitted⟩ := other.sent_spec hnodup hfresh.ofOther
  obtain ⟨hotherWrote, hotherKept⟩ := shown_exchange hnodup hfresh
  obtain ⟨honeWrote, honeKept⟩ := shown_exchange hnodup hfresh.swap
  by_cases hother : id ∈ touched (other.sent base)
  · rw [hotherWrote hother]
    by_cases hone : id ∈ touched (one.sent base)
    · rw [honeWrote hone]
      rcases mem_touched honeEmitted hone with horder | hmakes
      · exact (hapart.lines id horder hone hother).symm
      · rcases mem_touched hotherEmitted hother with horder | hmakes'
        · exact absurd horder (hfresh.ofOne.notMem_of_makes hmakes)
        · exact absurd hmakes' (hfresh.not_makes hmakes)
    · rw [honeKept hone]
  · rw [hotherKept hother]
    by_cases hone : id ∈ touched (one.sent base)
    · rw [honeWrote hone]
    · rw [honeKept hone, hotherMirror, honeMirror, shown, shown,
        getElem?_applyAll_of_notMem hone, getElem?_applyAll_of_notMem hother]

/-- A client's new lines show what it left in them. -/
theorem LineClient.filterMap_gap {gaps : Option Uuid → List Uuid} {slot : Option Uuid}
    (hnodup : base.order.Nodup) (hfresh : base.FreshClients one other)
    (hitems : ∀ slot, ∀ item ∈ gaps slot, one.Makes item)
    (horder : (one.mirror base).order = weave base.order gaps)
    (hslot : IsSlot base.order slot) :
    (gaps slot).filterMap ((one.mirror base).applyAll (other.sent base)).shown =
      one.gapContents base slot := by
  obtain ⟨_, hotherEmitted⟩ := other.sent_spec hnodup hfresh.ofOther
  have hgap : gapAfter base.order (one.mirror base).order slot = gaps slot := by
    rw [horder]
    exact gapAfter_weave hnodup
      (fun slot item hitem => hfresh.ofOne.notMem_of_makes (hitems slot item hitem)) hslot
  rw [gapContents, hgap]
  apply List.filterMap_congr
  intro item hitem
  have hmakes := hitems slot item hitem
  refine (shown_exchange hnodup hfresh).2 fun htouched => ?_
  rcases mem_touched hotherEmitted htouched with hmem | hother
  · exact hfresh.ofOne.notMem_of_makes hmakes hmem
  · exact hfresh.not_makes hmakes hother

/-- Clients whose edits do not meet read the same after they have exchanged
them. -/
theorem mirrors_converge (snapshot : NoteLinesSnapshot) (one other : LineClient)
    (hnodup : snapshot.order.Nodup)
    (hfresh : (fromSnapshot snapshot).FreshClients one other)
    (hapart : (fromSnapshot snapshot).Apart one other) :
    ((one.mirror (fromSnapshot snapshot)).applyAll
        (other.sent (fromSnapshot snapshot))).materialize =
      ((other.mirror (fromSnapshot snapshot)).applyAll
        (one.sent (fromSnapshot snapshot))).materialize := by
  generalize hbase : fromSnapshot snapshot = base at *
  have hnodup : base.order.Nodup := hbase ▸ hnodup
  obtain ⟨oneGaps, honeItems, honeOrder, honeNodup, honeReplay⟩ :=
    LineClient.exists_gaps hnodup hfresh
  obtain ⟨otherGaps, hotherItems, hotherOrder, hotherNodup, hotherReplay⟩ :=
    LineClient.exists_gaps hnodup hfresh.swap
  have hshown : ((one.mirror base).applyAll (other.sent base)).shown =
      ((other.mirror base).applyAll (one.sent base)).shown :=
    funext fun id => LineClient.shown_exchange_comm hnodup hfresh hapart
  rw [materialize_eq, materialize_eq, hotherReplay _ oneGaps honeItems honeOrder honeNodup,
    honeReplay _ otherGaps hotherItems hotherOrder hotherNodup]
  congr 1
  refine filterMap_weave_congr (fun id _ => congrFun hshown id) fun slot hslot => ?_
  have hone := LineClient.filterMap_gap hnodup hfresh honeItems honeOrder hslot
  have hother := LineClient.filterMap_gap hnodup hfresh.swap hotherItems hotherOrder hslot
  have hone' := hshown ▸ hone
  rw [List.filterMap_append, List.filterMap_append, hone', hother, hshown, hone', hother]
  exact (hapart.gaps slot hslot).symm

end Exchange

namespace LineRelayWitness

def snapshot : NoteLinesSnapshot where
  noteId := 7
  order := [1, 2]
  updatedAt := 1
  vv := ∅
  lastWriter := ""
  lines := [
    { id := 1, content := "first", createdAt := 1, updatedAt := 1, deletedAt := none, vv := ∅
      lastWriter := "A" },
    { id := 2, content := "second", createdAt := 1, updatedAt := 1, deletedAt := none, vv := ∅
      lastWriter := "A" }]

/-- Calls are numbered, and each of their ids: an odd number is one client's. -/
def newId (parity : Nat) (call position : Nat) : Uuid :=
  2 * Nat.pair call position + parity + 4

def client (device : String) (parity : Nat) (body : String) : LineClient :=
  { device, edits := [(2, body)], newId := newId parity }

theorem freshCalls (parity : Nat) : (fromSnapshot snapshot).FreshCalls (newId parity) where
  injective := fun call position call' position' heq => by
    have hpair : 2 * Nat.pair call position + parity + 4 =
        2 * Nat.pair call' position' + parity + 4 := heq
    exact Nat.pair_eq_pair.mp (by omega)
  order := fun call position hmem => by
    have hsmall : 2 * Nat.pair call position + parity + 4 ∈ ([1, 2] : List Nat) := hmem
    rw [List.mem_cons, List.mem_singleton] at hsmall
    omega

theorem freshClients (body body' : String) :
    (fromSnapshot snapshot).FreshClients (client "A" 0 body) (client "B" 1 body') where
  ofOne := freshCalls 0
  ofOther := freshCalls 1
  disjoint := fun call position call' position' heq => by
    have hpair : 2 * Nat.pair call position + 0 + 4 =
        2 * Nat.pair call' position' + 1 + 4 := heq
    omega

/-- Both clients put a line at the head. -/
theorem mirrors_diverge :
    (fromSnapshot snapshot).order.Nodup ∧
      (fromSnapshot snapshot).FreshClients (client "A" 0 "a\nfirst\nsecond")
        (client "B" 1 "b\nfirst\nsecond") ∧
      (((client "A" 0 "a\nfirst\nsecond").mirror (fromSnapshot snapshot)).applyAll
        ((client "B" 1 "b\nfirst\nsecond").sent (fromSnapshot snapshot))).materialize =
          "b\na\nfirst\nsecond" ∧
      (((client "B" 1 "b\nfirst\nsecond").mirror (fromSnapshot snapshot)).applyAll
        ((client "A" 0 "a\nfirst\nsecond").sent (fromSnapshot snapshot))).materialize =
          "a\nb\nfirst\nsecond" :=
  ⟨by decide, freshClients _ _, by decide, by decide⟩

/-- One client puts a line at the head, the other changes the last one. -/
theorem mirrors_converge_snapshot :
    (((client "A" 0 "a\nfirst\nsecond").mirror (fromSnapshot snapshot)).applyAll
        ((client "B" 1 "first\nb").sent (fromSnapshot snapshot))).materialize =
      (((client "B" 1 "first\nb").mirror (fromSnapshot snapshot)).applyAll
        ((client "A" 0 "a\nfirst\nsecond").sent (fromSnapshot snapshot))).materialize := by
  have hgaps : ∀ slot ∈ [none, some 1, some 2],
      (client "A" 0 "a\nfirst\nsecond").gapContents (fromSnapshot snapshot) slot ++
          (client "B" 1 "first\nb").gapContents (fromSnapshot snapshot) slot =
        (client "B" 1 "first\nb").gapContents (fromSnapshot snapshot) slot ++
          (client "A" 0 "a\nfirst\nsecond").gapContents (fromSnapshot snapshot) slot := by
    decide
  refine mirrors_converge snapshot (client "A" 0 "a\nfirst\nsecond") (client "B" 1 "first\nb")
    (by decide) (freshClients _ _) ⟨by decide, fun slot hslot => hgaps slot ?_⟩
  cases slot with
  | none => decide
  | some id => simpa [fromSnapshot, snapshot] using hslot id rfl

end LineRelayWitness

end NoteLines

end Keeplin
