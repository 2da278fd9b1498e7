/-
Vector clocks over an arbitrary type of events.  A history lists the events in
the order they were made, each with the events its author held at that moment.
When every event counts exactly what its author held, plus itself, comparing
clocks is the same as being in the causal past.
-/
import Mathlib.Logic.Relation
import Mathlib.Data.List.Basic
import Mathlib.Order.Basic

namespace Keeplin

universe u v

/-- What a clock reads off an event: who made it and how many events of each
author it counts. -/
structure EventClock (E : Type u) (D : Type v) where
  author : E → D
  count : E → D → Nat

namespace EventClock

variable {E : Type u} {D : Type v}

/-- A history: events in order, each with the events its author then held. -/
abbrev History (E : Type u) := List (E × List E)

def Recorded (history : History E) (event : E) : Prop :=
  ∃ held, (event, held) ∈ history

/-- `earlier` was held by the author of `later` when it made `later`. -/
def Held (history : History E) (earlier later : E) : Prop :=
  ∃ held, (later, held) ∈ history ∧ earlier ∈ held

/-- The causal past: held, directly or through a chain of events. -/
def Past (history : History E) : E → E → Prop :=
  Relation.TransGen (Held history)

variable (K : EventClock E D)

/-- One event counted exactly: it covers what its author held, moves its own
component past all of that, and counts nothing else. -/
structure CountsExactly (history : History E) (event : E) (held : List E) :
    Prop where
  recorded : ∀ earlier ∈ held, Recorded history earlier
  keepsOwn : ∀ earlier, Recorded history earlier →
    K.author earlier = K.author event →
      ∃ between ∈ held, earlier = between ∨ Past history earlier between
  covers : ∀ earlier ∈ held, ∀ device, K.count earlier device ≤ K.count event device
  advances : ∀ earlier ∈ held,
    K.count earlier (K.author event) < K.count event (K.author event)
  positive : 0 < K.count event (K.author event)
  tight : ∀ device n, n < K.count event device →
    (device = K.author event ∧ n + 1 = K.count event device) ∨
      ∃ earlier ∈ held, n < K.count earlier device

/-- Every event of the history was counted exactly when it was made. -/
inductive Exact : History E → Prop
  | nil : Exact []
  | snoc {history : History E} {event : E} {held : List E}
      (before : Exact history)
      (counted : K.CountsExactly history event held) :
      Exact (history ++ [(event, held)])

theorem recorded_append_left {history extra : History E} {event : E}
    (hevent : Recorded history event) : Recorded (history ++ extra) event := by
  obtain ⟨held, hheld⟩ := hevent
  exact ⟨held, List.mem_append.mpr (Or.inl hheld)⟩

theorem recorded_snoc {history : History E} {event other : E} {held : List E} :
    Recorded (history ++ [(event, held)]) other ↔
      Recorded history other ∨ other = event := by
  constructor
  · rintro ⟨found, hfound⟩
    rcases List.mem_append.mp hfound with hold | hnew
    · exact Or.inl ⟨found, hold⟩
    · have heq := List.mem_singleton.mp hnew
      exact Or.inr (congrArg Prod.fst heq)
  · rintro (hold | rfl)
    · exact recorded_append_left hold
    · exact ⟨held, by simp⟩

theorem held_append_left {history extra : History E} {earlier later : E}
    (hheld : Held history earlier later) : Held (history ++ extra) earlier later := by
  obtain ⟨held, hmem, hearlier⟩ := hheld
  exact ⟨held, List.mem_append.mpr (Or.inl hmem), hearlier⟩

theorem past_append_left {history extra : History E} {earlier later : E}
    (hpast : Past history earlier later) : Past (history ++ extra) earlier later :=
  Relation.TransGen.mono (fun _ _ hheld => held_append_left hheld) _ _ hpast

/-- What holds of one link of the past, when it is transitive, holds of the
whole past. -/
theorem past_induction {history : History E} {motive : E → E → Prop}
    (link : ∀ earlier later, Held history earlier later → motive earlier later)
    (chain : ∀ first second third, motive first second → motive second third →
      motive first third) {earlier later : E}
    (hpast : Past history earlier later) : motive earlier later := by
  induction hpast with
  | single hheld => exact link _ _ hheld
  | tail _ hheld ih => exact chain _ _ _ ih (link _ _ hheld)

namespace Exact

variable {K} {history : History E}

theorem held_count_le (hexact : K.Exact history) {earlier later : E}
    (hheld : Held history earlier later) (device : D) :
    K.count earlier device ≤ K.count later device := by
  induction hexact with
  | nil =>
      obtain ⟨held, hmem, _⟩ := hheld
      exact absurd hmem List.not_mem_nil
  | snoc _ counted ih =>
      obtain ⟨found, hmem, hearlier⟩ := hheld
      rcases List.mem_append.mp hmem with hold | hnew
      · exact ih ⟨found, hold, hearlier⟩
      · obtain ⟨rfl, rfl⟩ := Prod.mk.inj (List.mem_singleton.mp hnew)
        exact counted.covers earlier hearlier device

theorem held_recorded (hexact : K.Exact history) {earlier later : E}
    (hheld : Held history earlier later) : Recorded history earlier := by
  induction hexact with
  | nil =>
      obtain ⟨held, hmem, _⟩ := hheld
      exact absurd hmem List.not_mem_nil
  | snoc _ counted ih =>
      obtain ⟨found, hmem, hearlier⟩ := hheld
      rcases List.mem_append.mp hmem with hold | hnew
      · exact recorded_append_left (ih ⟨found, hold, hearlier⟩)
      · obtain ⟨rfl, rfl⟩ := Prod.mk.inj (List.mem_singleton.mp hnew)
        exact recorded_append_left (counted.recorded earlier hearlier)

theorem past_recorded (hexact : K.Exact history) {earlier later : E}
    (hpast : Past history earlier later) : Recorded history earlier :=
  @past_induction _ _ (fun first _ => Recorded history first)
    (fun _ _ hheld => hexact.held_recorded hheld) (fun _ _ _ hfirst _ => hfirst) _ _ hpast

/-- The causal past is counted. -/
theorem past_count_le (hexact : K.Exact history) {earlier later : E}
    (hpast : Past history earlier later) (device : D) :
    K.count earlier device ≤ K.count later device :=
  past_induction (motive := fun first last =>
      K.count first device ≤ K.count last device)
    (fun _ _ hheld => hexact.held_count_le hheld device)
    (fun _ _ _ hfirst hsecond => Nat.le_trans hfirst hsecond) hpast

/-- An event counts its author past everything that author held. -/
theorem held_count_lt (hexact : K.Exact history) {earlier later : E}
    (hheld : Held history earlier later) :
    K.count earlier (K.author later) < K.count later (K.author later) := by
  induction hexact with
  | nil =>
      obtain ⟨held, hmem, _⟩ := hheld
      exact absurd hmem List.not_mem_nil
  | snoc _ counted ih =>
      obtain ⟨found, hmem, hearlier⟩ := hheld
      rcases List.mem_append.mp hmem with hold | hnew
      · exact ih ⟨found, hold, hearlier⟩
      · obtain ⟨rfl, rfl⟩ := Prod.mk.inj (List.mem_singleton.mp hnew)
        exact counted.advances earlier hearlier

/-- No event is in its own past. -/
theorem past_irrefl (hexact : K.Exact history) (event : E) :
    ¬ Past history event event := by
  intro hpast
  obtain ⟨last, hchain, hheld⟩ := Relation.TransGen.tail'_iff.mp hpast
  have hlt := hexact.held_count_lt hheld
  rcases Relation.reflTransGen_iff_eq_or_transGen.mp hchain with heq | hbefore
  · rw [heq] at hlt
    exact Nat.lt_irrefl _ hlt
  · have hle := hexact.past_count_le hbefore (K.author event)
    omega

/-- A new event counts its author past every earlier event of that author. -/
theorem own_count_lt {event : E} {held : List E} (before : K.Exact history)
    (counted : K.CountsExactly history event held) {earlier : E}
    (hearlier : Recorded history earlier)
    (hauthor : K.author earlier = K.author event) :
    K.count earlier (K.author event) < K.count event (K.author event) := by
  obtain ⟨between, hbetween, heq | hpast⟩ := counted.keepsOwn earlier hearlier hauthor
  · exact heq ▸ counted.advances between hbetween
  · exact Nat.lt_of_le_of_lt (before.past_count_le hpast _)
      (counted.advances between hbetween)

theorem count_author_pos (hexact : K.Exact history) {event : E}
    (hevent : Recorded history event) : 0 < K.count event (K.author event) := by
  induction hexact with
  | nil =>
      obtain ⟨held, hmem⟩ := hevent
      exact absurd hmem List.not_mem_nil
  | snoc _ counted ih =>
      rcases recorded_snoc.mp hevent with hold | rfl
      · exact ih hold
      · exact counted.positive

/-- Two events of one author with one count are one event. -/
theorem eq_of_count_eq (hexact : K.Exact history) {first second : E}
    (hfirst : Recorded history first) (hsecond : Recorded history second)
    (hauthor : K.author first = K.author second)
    (hcount : K.count first (K.author first) = K.count second (K.author first)) :
    first = second := by
  induction hexact with
  | nil =>
      obtain ⟨held, hmem⟩ := hfirst
      exact absurd hmem List.not_mem_nil
  | snoc before counted ih =>
      rcases recorded_snoc.mp hfirst with holdFirst | rfl
      · rcases recorded_snoc.mp hsecond with holdSecond | rfl
        · exact ih holdFirst holdSecond
        · have hlt := own_count_lt before counted holdFirst hauthor
          rw [← hauthor, hcount] at hlt
          exact absurd hlt (Nat.lt_irrefl _)
      · rcases recorded_snoc.mp hsecond with holdSecond | rfl
        · have hlt := own_count_lt before counted holdSecond hauthor.symm
          rw [← hcount] at hlt
          exact absurd hlt (Nat.lt_irrefl _)
        · rfl

/-- No event is made twice. -/
theorem nodup_events (hexact : K.Exact history) : (history.map Prod.fst).Nodup := by
  induction hexact with
  | nil => exact .nil
  | @snoc history event held before counted ih =>
      rw [List.map_append, List.map_singleton]
      refine List.nodup_append.mpr ⟨ih, by simp, ?_⟩
      rintro earlier hearlier made hmade rfl
      obtain ⟨⟨found, others⟩, hmem, hfound⟩ := List.mem_map.mp hearlier
      obtain rfl : found = event := hfound.trans (List.mem_singleton.mp hmade)
      have hlt := own_count_lt before counted ⟨others, hmem⟩ rfl
      exact absurd hlt (Nat.lt_irrefl _)

/-- Whatever an event counts is itself or in its past: the `n`-th event of
each author it counts is there. -/
theorem exists_of_lt_count (hexact : K.Exact history) {event : E}
    (hevent : Recorded history event) {device : D} {n : Nat}
    (hn : n < K.count event device) :
    ∃ source, Recorded history source ∧ K.author source = device ∧
      K.count source device = n + 1 ∧ (source = event ∨ Past history source event) := by
  induction hexact generalizing event with
  | nil =>
      obtain ⟨held, hmem⟩ := hevent
      exact absurd hmem List.not_mem_nil
  | @snoc history made held before counted ih =>
      rcases recorded_snoc.mp hevent with hold | rfl
      · obtain ⟨source, hsource, hauthor, hcount, hplace⟩ := ih hold hn
        exact ⟨source, recorded_append_left hsource, hauthor, hcount,
          hplace.imp id past_append_left⟩
      · rcases counted.tight device n hn with ⟨rfl, hcount⟩ | ⟨earlier, hearlier, hlt⟩
        · exact ⟨event, recorded_snoc.mpr (Or.inr rfl), rfl, hcount.symm, Or.inl rfl⟩
        · obtain ⟨source, hsource, hauthor, hcount, hplace⟩ :=
            ih (counted.recorded earlier hearlier) hlt
          have hlink : Held (history ++ [(event, held)]) earlier event :=
            ⟨held, by simp, hearlier⟩
          refine ⟨source, recorded_append_left hsource, hauthor, hcount, Or.inr ?_⟩
          rcases hplace with rfl | hpast
          · exact Relation.TransGen.single hlink
          · exact (past_append_left hpast).tail hlink

/-- An event that counts the author of another as far as this one does is that
event or has it in its past. -/
theorem author_count_le_iff (hexact : K.Exact history) {earlier later : E}
    (hearlier : Recorded history earlier) (hlater : Recorded history later) :
    K.count earlier (K.author earlier) ≤ K.count later (K.author earlier) ↔
      earlier = later ∨ Past history earlier later := by
  constructor
  · intro hle
    have hpos := hexact.count_author_pos hearlier
    have hlt : K.count earlier (K.author earlier) - 1 < K.count later (K.author earlier) :=
      Nat.lt_of_lt_of_le (Nat.sub_lt hpos Nat.one_pos) hle
    obtain ⟨source, hsource, hauthor, hcount, hplace⟩ :=
      hexact.exists_of_lt_count hlater hlt
    have hsame : earlier = source := by
      apply hexact.eq_of_count_eq hearlier hsource hauthor.symm
      omega
    rcases hplace with heq | hpast
    · exact Or.inl (hsame.trans heq)
    · exact Or.inr (hsame ▸ hpast)
  · rintro (rfl | hpast)
    · exact Nat.le_refl _
    · exact hexact.past_count_le hpast _

/-- Clock comparison is causality: an event counts at least as much as another
exactly when it is that event or has it in its past. -/
theorem count_le_iff (hexact : K.Exact history) {earlier later : E}
    (hearlier : Recorded history earlier) (hlater : Recorded history later) :
    (∀ device, K.count earlier device ≤ K.count later device) ↔
      earlier = later ∨ Past history earlier later := by
  constructor
  · exact fun hle => (hexact.author_count_le_iff hearlier hlater).mp (hle _)
  · rintro (rfl | hpast) device
    · exact Nat.le_refl _
    · exact hexact.past_count_le hpast device

end Exact

/-- Events below each other's in both directions have the same latest ones. -/
theorem latest_of_cofinal {history : History E} {events others : List E}
    (hbelow : ∀ event ∈ events, ∃ other ∈ others, event = other ∨ Past history event other)
    (habove : ∀ other ∈ others, ∃ event ∈ events, other = event ∨ Past history other event)
    {event : E} (hevent : event ∈ events)
    (hlatest : ∀ later ∈ events, ¬ Past history event later) :
    event ∈ others ∧ ∀ later ∈ others, ¬ Past history event later := by
  have hno : ∀ later ∈ others, ¬ Past history event later := by
    intro later hlater hpast
    obtain ⟨above, habove, rfl | hmore⟩ := habove later hlater
    · exact hlatest later habove hpast
    · exact hlatest above habove (hpast.trans hmore)
  obtain ⟨other, hother, rfl | hpast⟩ := hbelow event hevent
  · exact ⟨hother, hno⟩
  · exact absurd hpast (hno other hother)

end EventClock

end Keeplin
