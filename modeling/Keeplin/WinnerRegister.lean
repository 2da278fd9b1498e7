/-
A register that holds one value and lets an incoming item replace it when a
given relation says so.  Nothing is assumed about the relation except that no
item replaces its own value, so the characterization below says exactly when
the order of delivery stops mattering.
-/
import Mathlib.Logic.Relation
import Mathlib.Data.List.Basic

namespace Keeplin

universe u v

/-- A register over states `S` fed with items `C`.  `wins` decides whether an
item replaces the current state and `put` is the state it then leaves. -/
structure WinnerRegister (C : Type u) (S : Type v) where
  wins : C → S → Bool
  put : C → S

namespace WinnerRegister

variable {C : Type u} {S : Type v} (R : WinnerRegister C S)

def deliver (state : S) (item : C) : S :=
  if R.wins item state then R.put item else state

def deliverAll (state : S) (sequence : List C) : S :=
  sequence.foldl R.deliver state

theorem deliver_of_wins {state : S} {item : C}
    (hwins : R.wins item state = true) : R.deliver state item = R.put item := by
  simp [deliver, hwins]

theorem deliver_of_loses {state : S} {item : C}
    (hloses : R.wins item state = false) : R.deliver state item = state := by
  simp [deliver, hloses]

@[simp] theorem deliverAll_nil (state : S) : R.deliverAll state [] = state := rfl

@[simp] theorem deliverAll_cons (state : S) (item : C) (rest : List C) :
    R.deliverAll state (item :: rest) =
      R.deliverAll (R.deliver state item) rest := rfl

theorem deliverAll_append (state : S) (first second : List C) :
    R.deliverAll state (first ++ second) =
      R.deliverAll (R.deliverAll state first) second := by
  simp [deliverAll, List.foldl_append]

/-- A state that none of the delivered items replaces is kept. -/
theorem deliverAll_of_loses {state : S} {sequence : List C}
    (hloses : ∀ item ∈ sequence, R.wins item state = false) :
    R.deliverAll state sequence = state := by
  induction sequence with
  | nil => rfl
  | cons item rest ih =>
      rw [deliverAll_cons, R.deliver_of_loses (hloses item List.mem_cons_self)]
      exact ih fun other hother => hloses other (List.mem_cons_of_mem item hother)

/-- Delivery either leaves the state alone or leaves the value of one of the
delivered items. -/
theorem deliverAll_eq_or_put (state : S) (sequence : List C) :
    R.deliverAll state sequence = state ∨
      ∃ item ∈ sequence, R.deliverAll state sequence = R.put item := by
  induction sequence generalizing state with
  | nil => exact Or.inl rfl
  | cons item rest ih =>
      rw [deliverAll_cons]
      rcases ih (R.deliver state item) with hkept | ⟨other, hother, hput⟩
      · rw [hkept]
        by_cases hwins : R.wins item state = true
        · exact Or.inr ⟨item, List.mem_cons_self, R.deliver_of_wins hwins⟩
        · exact Or.inl (R.deliver_of_loses (Bool.not_eq_true _ ▸ hwins))
      · exact Or.inr ⟨other, List.mem_cons_of_mem item hother, hput⟩

/-- A delivery sequence over `items`: nothing else is delivered, and every
item is delivered at least once. -/
structure Covers (items sequence : List C) : Prop where
  sound : ∀ item ∈ sequence, item ∈ items
  complete : ∀ item ∈ items, item ∈ sequence

/-- All delivery sequences over `items` end in one state. -/
def Converges (state : S) (items : List C) : Prop :=
  ∀ first second : List C, Covers items first → Covers items second →
    R.deliverAll state first = R.deliverAll state second

/-- One replacement by an item other than `top`. -/
def MovesWithout (items : List C) (top : C) (before after : S) : Prop :=
  ∃ item ∈ items, item ≠ top ∧ R.wins item before = true ∧ after = R.put item

/-- Either no item replaces the state, or one item is replaced by none and
replaces every state the register can come to hold before that item arrives. -/
def Settles (state : S) (items : List C) : Prop :=
  (∀ item ∈ items, R.wins item state = false) ∨
    ∃ top ∈ items, (∀ item ∈ items, R.wins item (R.put top) = false) ∧
      ∀ reached : S,
        Relation.ReflTransGen (R.MovesWithout items top) state reached →
          R.wins top reached = true

/-- From a state reached without `top`, delivering `top` among the other items
ends at `top`, whatever surrounds it. -/
theorem deliverAll_eq_put_top {items : List C} {top : C}
    (hkept : ∀ item ∈ items, R.wins item (R.put top) = false)
    {state : S}
    (hbeats : ∀ reached : S,
      Relation.ReflTransGen (R.MovesWithout items top) state reached →
        R.wins top reached = true)
    (sequence : List C) (hsound : ∀ item ∈ sequence, item ∈ items)
    (htop : top ∈ sequence) {reached : S}
    (hreached : Relation.ReflTransGen (R.MovesWithout items top) state reached) :
    R.deliverAll reached sequence = R.put top := by
  induction sequence generalizing reached with
  | nil => exact absurd htop List.not_mem_nil
  | cons item rest ih =>
      have hrest : ∀ other ∈ rest, other ∈ items := fun other hother =>
        hsound other (List.mem_cons_of_mem item hother)
      rw [deliverAll_cons]
      by_cases heq : item = top
      · subst heq
        rw [R.deliver_of_wins (hbeats reached hreached)]
        exact R.deliverAll_of_loses fun other hother => hkept other (hrest other hother)
      · have htail : top ∈ rest := by
          rcases List.mem_cons.mp htop with hhead | htail
          · exact absurd hhead.symm heq
          · exact htail
        apply ih hrest htail
        by_cases hwins : R.wins item reached = true
        · rw [R.deliver_of_wins hwins]
          exact hreached.tail
            ⟨item, hsound item List.mem_cons_self, heq, hwins, rfl⟩
        · rwa [R.deliver_of_loses (Bool.not_eq_true _ ▸ hwins)]

theorem converges_of_settles {state : S} {items : List C}
    (hsettles : R.Settles state items) : R.Converges state items := by
  intro first second hfirst hsecond
  rcases hsettles with hnone | ⟨top, htop, hkept, hbeats⟩
  · rw [R.deliverAll_of_loses fun item hitem => hnone item (hfirst.sound item hitem),
      R.deliverAll_of_loses fun item hitem => hnone item (hsecond.sound item hitem)]
  · rw [R.deliverAll_eq_put_top hkept hbeats first hfirst.sound
        (hfirst.complete top htop) Relation.ReflTransGen.refl,
      R.deliverAll_eq_put_top hkept hbeats second hsecond.sound
        (hsecond.complete top htop) Relation.ReflTransGen.refl]

/-- A state reached without `top` is the end of a sequence without `top`. -/
theorem exists_sequence_of_reached {items : List C} {top : C} {state reached : S}
    (hreached : Relation.ReflTransGen (R.MovesWithout items top) state reached) :
    ∃ sequence : List C, (∀ item ∈ sequence, item ∈ items ∧ item ≠ top) ∧
      R.deliverAll state sequence = reached := by
  induction hreached with
  | refl => exact ⟨[], by simp, rfl⟩
  | tail _ hmove ih =>
      obtain ⟨sequence, hsequence, hend⟩ := ih
      obtain ⟨item, hitem, hne, hwins, rfl⟩ := hmove
      refine ⟨sequence ++ [item], ?_, ?_⟩
      · intro other hother
        rcases List.mem_append.mp hother with hold | hnew
        · exact hsequence other hold
        · rw [List.mem_singleton.mp hnew]
          exact ⟨hitem, hne⟩
      · rw [deliverAll_append, hend, deliverAll_cons, deliverAll_nil,
          R.deliver_of_wins hwins]

/-- If some item replaces the state, a delivery of all items moves it. -/
theorem exists_put_of_wins {state : S} {items : List C}
    {mover : C} (hmover : mover ∈ items) (hwins : R.wins mover state = true) :
    ∃ item ∈ items, R.deliverAll state (mover :: items) = R.put item := by
  rw [deliverAll_cons, R.deliver_of_wins hwins]
  rcases R.deliverAll_eq_or_put (R.put mover) items with hkept | ⟨item, hitem, hput⟩
  · exact ⟨mover, hmover, hkept⟩
  · exact ⟨item, hitem, hput⟩

theorem settles_of_converges {state : S} {items : List C}
    (hself : ∀ item ∈ items, R.wins item (R.put item) = false)
    (hinj : ∀ first ∈ items, ∀ second ∈ items,
      R.put first = R.put second → first = second)
    (hconverges : R.Converges state items) : R.Settles state items := by
  classical
  by_cases hnone : ∀ item ∈ items, R.wins item state = false
  · exact Or.inl hnone
  push Not at hnone
  obtain ⟨mover, hmover, hmoves⟩ := hnone
  have hmoves : R.wins mover state = true := by simpa using hmoves
  -- The common end of all sequences is the value of one item.
  have hbase : Covers items (mover :: items) :=
    ⟨fun item hitem => (List.mem_cons.mp hitem).elim (fun heq => heq ▸ hmover) id,
      fun item hitem => List.mem_cons_of_mem mover hitem⟩
  obtain ⟨top, htop, hend⟩ := R.exists_put_of_wins hmover hmoves
  have hall : ∀ sequence : List C, Covers items sequence →
      R.deliverAll state sequence = R.put top := fun sequence hsequence =>
    (hconverges sequence (mover :: items) hsequence hbase).trans hend
  -- Nothing replaces that end, or one more delivery would leave it.
  have hkept : ∀ item ∈ items, R.wins item (R.put top) = false := by
    intro item hitem
    by_contra hwins
    have hwins : R.wins item (R.put top) = true := by simpa using hwins
    have hmore := hall ((mover :: items) ++ [item])
      ⟨fun other hother => (List.mem_append.mp hother).elim (hbase.sound other)
          (fun hnew => List.mem_singleton.mp hnew ▸ hitem),
        fun other hother => List.mem_append.mpr (Or.inl (hbase.complete other hother))⟩
    rw [deliverAll_append, hend, deliverAll_cons, deliverAll_nil,
      R.deliver_of_wins hwins] at hmore
    have heq := hinj item hitem top htop hmore
    rw [heq, hself top htop] at hwins
    contradiction
  refine Or.inr ⟨top, htop, hkept, fun reached hreached => ?_⟩
  -- Otherwise deliver `top` there, without effect, and the others afterwards.
  by_contra hloses
  have hloses : R.wins top reached = false := by simpa using hloses
  obtain ⟨sequence, hsequence, hstop⟩ := R.exists_sequence_of_reached hreached
  let others := items.filter (fun item => item ≠ top)
  have hothers : ∀ item ∈ others, item ∈ items ∧ item ≠ top := by
    intro item hitem
    simpa [others] using hitem
  have hcovers : Covers items (sequence ++ top :: others) := by
    constructor
    · intro item hitem
      rcases List.mem_append.mp hitem with hold | hnew
      · exact (hsequence item hold).1
      · rcases List.mem_cons.mp hnew with rfl | hother
        · exact htop
        · exact (hothers item hother).1
    · intro item hitem
      by_cases heq : item = top
      · simp [heq]
      · simp [others, hitem, heq]
  have hfinal := hall _ hcovers
  rw [deliverAll_append, hstop, deliverAll_cons, R.deliver_of_loses hloses] at hfinal
  rcases R.deliverAll_eq_or_put reached others with hkeptEnd | ⟨item, hitem, hput⟩
  · rw [hkeptEnd] at hfinal
    rcases R.deliverAll_eq_or_put state sequence with hstart | ⟨item, hitem, hput⟩
    · have heq : state = R.put top := hstart.symm.trans (hstop.trans hfinal)
      have hlost := hkept mover hmover
      rw [← heq, hmoves] at hlost
      contradiction
    · have heq := hinj item (hsequence item hitem).1 top htop
        (hput.symm.trans (hstop.trans hfinal))
      exact (hsequence item hitem).2 heq
  · have heq := hinj item (hothers item hitem).1 top htop (hput.symm.trans hfinal)
    exact (hothers item hitem).2 heq

/-- The exact condition for delivery order not to matter. -/
theorem converges_iff_settles {state : S} {items : List C}
    (hself : ∀ item ∈ items, R.wins item (R.put item) = false)
    (hinj : ∀ first ∈ items, ∀ second ∈ items,
      R.put first = R.put second → first = second) :
    R.Converges state items ↔ R.Settles state items :=
  ⟨R.settles_of_converges hself hinj, R.converges_of_settles⟩

end WinnerRegister

end Keeplin
