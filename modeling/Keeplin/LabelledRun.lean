/-
Runs of a step function that may refuse an action.  An invariant that every
allowed step keeps holds at the end of every run, and so does one that needs a
side condition at each step when the run meets it.
-/
import Mathlib.Data.List.Basic

namespace Keeplin

universe u v

variable {S : Type u} {A : Type v}

/-- Perform the actions in order; a refused one ends the run without a state. -/
def runAll (step : S → A → Option S) (state : S) : List A → Option S
  | [] => some state
  | action :: rest => (step state action).bind fun next => runAll step next rest

/-- Every action of the run is performed in a state that meets `condition`. -/
def MeetsAll (step : S → A → Option S) (condition : S → A → Prop) (state : S) :
    List A → Prop
  | [] => True
  | action :: rest => condition state action ∧
      ∀ next, step state action = some next → MeetsAll step condition next rest

/-- A decidable condition is decided along the run. -/
instance decidableMeetsAll {step : S → A → Option S} {condition : S → A → Prop}
    [hcondition : ∀ state action, Decidable (condition state action)] :
    ∀ state actions, Decidable (MeetsAll step condition state actions)
  | _, [] => isTrue trivial
  | state, action :: rest =>
      match hnext : step state action with
      | none => decidable_of_iff (condition state action)
          ⟨fun hholds => ⟨hholds, fun next hsome => by rw [hnext] at hsome; contradiction⟩,
            And.left⟩
      | some next =>
          have : Decidable (MeetsAll step condition next rest) := decidableMeetsAll next rest
          decidable_of_iff (condition state action ∧ MeetsAll step condition next rest)
            ⟨fun hholds => ⟨hholds.1, fun other hsome => by
                rw [hnext, Option.some.injEq] at hsome
                exact hsome ▸ hholds.2⟩,
              fun hholds => ⟨hholds.1, hholds.2 next hnext⟩⟩

/-- A weaker condition is met as well, if it is weaker for the actions of the
run. -/
theorem MeetsAll.mono {step : S → A → Option S} {condition condition' : S → A → Prop}
    {state : S} {actions : List A}
    (hweaker : ∀ state, ∀ action ∈ actions, condition state action → condition' state action)
    (hmeets : MeetsAll step condition state actions) : MeetsAll step condition' state actions := by
  induction actions generalizing state with
  | nil => trivial
  | cons action rest ih =>
      refine ⟨hweaker state action List.mem_cons_self hmeets.1, fun next hnext => ?_⟩
      exact ih (fun state later hlater => hweaker state later (List.mem_cons_of_mem _ hlater))
        (hmeets.2 next hnext)

theorem MeetsAll.of_forall {step : S → A → Option S} {condition : S → A → Prop} {state : S}
    {actions : List A} (hholds : ∀ state, ∀ action ∈ actions, condition state action) :
    MeetsAll step condition state actions := by
  induction actions generalizing state with
  | nil => trivial
  | cons action rest ih =>
      refine ⟨hholds state action List.mem_cons_self, fun next _ => ?_⟩
      exact ih fun state later hlater => hholds state later (List.mem_cons_of_mem _ hlater)

section Run

variable (step : S → A → Option S)

@[simp] theorem runAll_nil (state : S) : runAll step state [] = some state := rfl

theorem runAll_cons_eq_some {state final : S} {action : A} {rest : List A} :
    runAll step state (action :: rest) = some final ↔
      ∃ next, step state action = some next ∧ runAll step next rest = some final := by
  simp [runAll, Option.bind_eq_some_iff]

theorem runAll_append (state : S) (first second : List A) :
    runAll step state (first ++ second) =
      (runAll step state first).bind fun middle => runAll step middle second := by
  induction first generalizing state with
  | nil => rfl
  | cons action rest ih =>
      simp only [List.cons_append, runAll]
      cases step state action with
      | none => rfl
      | some next => exact ih next

/-- An invariant kept by every step that meets the condition holds at the end
of every run that meets it throughout. -/
theorem runAll_invariant_of_meetsAll {condition : S → A → Prop} {invariant : S → Prop}
    (hstep : ∀ state action next, invariant state → condition state action →
      step state action = some next → invariant next)
    {state final : S} {actions : List A} (hstart : invariant state)
    (hmeets : MeetsAll step condition state actions)
    (hrun : runAll step state actions = some final) : invariant final := by
  induction actions generalizing state with
  | nil =>
      rw [runAll_nil, Option.some.injEq] at hrun
      exact hrun ▸ hstart
  | cons action rest ih =>
      obtain ⟨next, hnext, hrest⟩ := (runAll_cons_eq_some step).mp hrun
      exact ih (hstep state action next hstart hmeets.1 hnext) (hmeets.2 next hnext) hrest

/-- A condition that the invariant of a run turns into another. -/
theorem MeetsAll.of_invariant {condition condition' : S → A → Prop} {invariant : S → Prop}
    (hstep : ∀ state action next, invariant state → condition state action →
      step state action = some next → invariant next)
    (hweaker : ∀ state action, invariant state → condition state action →
      condition' state action)
    {state : S} {actions : List A} (hstart : invariant state)
    (hmeets : MeetsAll step condition state actions) : MeetsAll step condition' state actions := by
  induction actions generalizing state with
  | nil => trivial
  | cons action rest ih =>
      refine ⟨hweaker state action hstart hmeets.1, fun next hnext => ?_⟩
      exact ih (hstep state action next hstart hmeets.1 hnext) (hmeets.2 next hnext)

/-- An invariant kept by every step holds at the end of every run. -/
theorem runAll_invariant {invariant : S → Prop}
    (hstep : ∀ state action next, invariant state →
      step state action = some next → invariant next)
    {state final : S} {actions : List A} (hstart : invariant state)
    (hrun : runAll step state actions = some final) : invariant final := by
  induction actions generalizing state with
  | nil =>
      rw [runAll_nil, Option.some.injEq] at hrun
      exact hrun ▸ hstart
  | cons action rest ih =>
      obtain ⟨next, hnext, hrest⟩ := (runAll_cons_eq_some step).mp hrun
      exact ih (hstep state action next hstart hnext) hrest

/-- Where a step keeps the invariant exactly when it meets the condition, the
invariant holds in every state a run reaches exactly when the run meets it
throughout.  What the steps keep anyway may be used of every state. -/
theorem forall_reached_iff_meetsAll_of_ready {condition : S → A → Prop}
    {ready invariant : S → Prop}
    (hrefused : ∀ state action, ready state → step state action = none → condition state action)
    {actions : List A}
    (hstep : ∀ state, ∀ action ∈ actions, ∀ next, ready state → invariant state →
      step state action = some next → ready next ∧ (invariant next ↔ condition state action))
    {state : S} (hready : ready state) (hstart : invariant state) :
    (∀ front, front <+: actions → ∀ reached, runAll step state front = some reached →
      invariant reached) ↔ MeetsAll step condition state actions := by
  induction actions generalizing state with
  | nil =>
      refine iff_of_true (fun front hfront reached hrun => ?_) trivial
      rw [List.prefix_nil.mp hfront, runAll_nil, Option.some.injEq] at hrun
      exact hrun ▸ hstart
  | cons action rest ih =>
      have hhead := fun next => hstep state action List.mem_cons_self next hready hstart
      have hrest := @ih fun state later hmem =>
        hstep state later (List.mem_cons_of_mem action hmem)
      constructor
      · intro hreached
        have hkept : ∀ next, step state action = some next → invariant next := fun next hnext =>
          hreached [action] (List.prefix_append [action] rest) next (by simp [runAll, hnext])
        refine ⟨?_, fun next hnext => (hrest (hhead next hnext).1 (hkept next hnext)).mp
          fun front hfront reached hrun => ?_⟩
        · cases hnext : step state action with
          | none => exact hrefused state action hready hnext
          | some next => exact (hhead next hnext).2.mp (hkept next hnext)
        · exact hreached (action :: front) (List.cons_prefix_cons.mpr ⟨rfl, hfront⟩) reached
            ((runAll_cons_eq_some step).mpr ⟨next, hnext, hrun⟩)
      · rintro ⟨hcondition, hmeets⟩ front hfront reached hrun
        cases front with
        | nil =>
            rw [runAll_nil, Option.some.injEq] at hrun
            exact hrun ▸ hstart
        | cons head tail =>
            obtain ⟨rfl, htail⟩ := List.cons_prefix_cons.mp hfront
            obtain ⟨next, hnext, htailRun⟩ := (runAll_cons_eq_some step).mp hrun
            obtain ⟨hreadyNext, hiff⟩ := hhead next hnext
            exact (hrest hreadyNext (hiff.mpr hcondition)).mpr (hmeets next hnext) tail htail
              reached htailRun

theorem forall_reached_iff_meetsAll {condition : S → A → Prop} {invariant : S → Prop}
    (hrefused : ∀ state action, step state action = none → condition state action)
    {actions : List A}
    (hstep : ∀ state, ∀ action ∈ actions, ∀ next, invariant state →
      step state action = some next → (invariant next ↔ condition state action))
    {state : S} (hstart : invariant state) :
    (∀ front, front <+: actions → ∀ reached, runAll step state front = some reached →
      invariant reached) ↔ MeetsAll step condition state actions :=
  forall_reached_iff_meetsAll_of_ready step (fun state action (_ : True) =>
      hrefused state action)
    (fun state action hmem next _ hinvariant hnext =>
      ⟨trivial, hstep state action hmem next hinvariant hnext⟩) trivial hstart

end Run

end Keeplin
