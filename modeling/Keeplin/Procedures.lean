/-
Procedures over a state.  A procedure ends with a result or with a failure, and leaves
the state changed in either case, or it does not end.
-/
import Mathlib.Algebra.BigOperators.Group.List.Basic
import Mathlib.Algebra.GroupWithZero.Nat

namespace Procedures

variable {S E A B : Type}

def Procedure (S E A : Type) : Type := S → Option (S × Except E A)

/-- What follows a failure is not run. -/
def Procedure.andThen (first : Procedure S E A) (next : A → Procedure S E B) :
    Procedure S E B := fun state =>
  match first state with
  | none => none
  | some (after, .error failure) => some (after, .error failure)
  | some (after, .ok result) => next result after

instance : Monad (Procedure S E) where
  pure result := fun state => some (state, .ok result)
  bind := Procedure.andThen

/-- Run the body for one item after the other and add up what it counts. -/
def forEach (items : List A) (body : A → Procedure S E Nat) : Procedure S E Nat :=
  match items with
  | [] => pure 0
  | item :: rest => do
      let count ← body item
      let others ← forEach rest body
      pure (count + others)

/-- The procedure ends, and what it ends with and the state then are such. -/
def Leads (procedure : Procedure S E A) (state : S) (post : Except E A → S → Prop) : Prop :=
  ∃ outcome after, procedure state = some (after, outcome) ∧ post outcome after

/-- The procedure ends with a result. -/
def Ends (procedure : Procedure S E A) (state : S) (post : A → S → Prop) : Prop :=
  Leads procedure state fun outcome after => ∃ result, outcome = .ok result ∧ post result after

/-- The procedure ends with a failure. -/
def Fails (procedure : Procedure S E A) (state : S) : Prop :=
  Leads procedure state fun outcome _ => ∃ failure, outcome = .error failure

variable {procedure : Procedure S E A} {next : A → Procedure S E B} {state : S}
  {post : A → S → Prop}

theorem Leads.imp {now other : Except E A → S → Prop} (hleads : Leads procedure state now)
    (himp : ∀ outcome after, now outcome after → other outcome after) :
    Leads procedure state other := by
  obtain ⟨outcome, after, hrun, hnow⟩ := hleads
  exact ⟨outcome, after, hrun, himp outcome after hnow⟩

theorem Ends.pure {result : A} (hpost : post result state) :
    Ends (Pure.pure result : Procedure S E A) state post :=
  ⟨.ok result, state, rfl, result, rfl, hpost⟩

theorem Ends.imp {other : A → S → Prop} (hends : Ends procedure state post)
    (himp : ∀ result after, post result after → other result after) :
    Ends procedure state other := by
  refine Leads.imp hends ?_
  rintro outcome after ⟨result, hresult, hpost⟩
  exact ⟨result, hresult, himp result after hpost⟩

/-- After a result the rest is run from the state it was ended in. -/
theorem Ends.thenLeads {last : Except E B → S → Prop} (hends : Ends procedure state post)
    (hnext : ∀ result after, post result after → Leads (next result) after last) :
    Leads (procedure >>= next) state last := by
  obtain ⟨outcome, after, hrun, result, rfl, hpost⟩ := hends
  obtain ⟨found, final, hfinal, hlast⟩ := hnext result after hpost
  refine ⟨found, final, ?_, hlast⟩
  change Procedure.andThen procedure next state = _
  simp only [Procedure.andThen, hrun, hfinal]

theorem Ends.bind {last : B → S → Prop} (hends : Ends procedure state post)
    (hnext : ∀ result after, post result after → Ends (next result) after last) :
    Ends (procedure >>= next) state last :=
  hends.thenLeads hnext

theorem Fails.first (hfails : Fails procedure state) (next : A → Procedure S E B) :
    Fails (procedure >>= next) state := by
  obtain ⟨outcome, after, hrun, failure, rfl⟩ := hfails
  refine ⟨.error failure, after, ?_, failure, rfl⟩
  change Procedure.andThen procedure next state = _
  simp only [Procedure.andThen, hrun]

/-- A loop keeps what is true of the items that are left. -/
theorem Ends.forEach (left : List A → S → Prop) (weight : A → Nat)
    {body : A → Procedure S E Nat} {items : List A} (hstart : left items state)
    (hbody : ∀ item rest before, item :: rest <:+ items → left (item :: rest) before →
      Ends (body item) before fun count after => count = weight item ∧ left rest after) :
    Ends (Procedures.forEach items body) state fun total after =>
      total = (items.map weight).sum ∧ left [] after := by
  induction items generalizing state with
  | nil => exact Ends.pure ⟨rfl, hstart⟩
  | cons item rest ih =>
      refine (hbody item rest state List.suffix_rfl hstart).bind ?_
      rintro count after ⟨rfl, hleft⟩
      refine (ih hleft fun next more before hsuffix =>
        hbody next more before (hsuffix.trans (List.suffix_cons item rest))).bind ?_
      rintro total final ⟨rfl, hdone⟩
      exact Ends.pure ⟨by rw [List.map_cons, List.sum_cons], hdone⟩

/-- A loop fails at the first item for which its body does. -/
theorem Fails.forEach (left : List A → S → Prop) {bad : A → Prop}
    {body : A → Procedure S E Nat} {items : List A} (hstart : left items state)
    (hbad : ∃ item ∈ items, bad item)
    (hbody : ∀ item rest before, item :: rest <:+ items → left (item :: rest) before →
      ¬ bad item → Ends (body item) before fun _ after => left rest after)
    (hfails : ∀ item before, bad item → Fails (body item) before) :
    Fails (Procedures.forEach items body) state := by
  induction items generalizing state with
  | nil => simp at hbad
  | cons item rest ih =>
      by_cases hitem : bad item
      · exact (hfails item state hitem).first _
      · rw [List.exists_mem_cons_iff] at hbad
        refine (hbody item rest state List.suffix_rfl hstart hitem).thenLeads ?_
        intro count after hleft
        refine (ih hleft (hbad.resolve_left hitem) fun next more before hsuffix =>
          hbody next more before (hsuffix.trans (List.suffix_cons item rest))).first _

section Tracks

variable {T : Type} {rel : S → T → Prop} {plain : Procedure T E A} {follow : A → Procedure T E B}

/-- From related states the two end alike, and in related states. -/
def Tracks (rel : S → T → Prop) (procedure : Procedure S E A) (plain : Procedure T E A) : Prop :=
  ∀ state start, rel state start → Option.Rel
    (fun done found => rel done.1 found.1 ∧ done.2 = found.2) (procedure state) (plain start)

theorem Tracks.pure (result : A) :
    Tracks rel (Pure.pure result : Procedure S E A) (Pure.pure result : Procedure T E A) :=
  fun _ _ hrel => .some ⟨hrel, rfl⟩

theorem Tracks.bind (hfirst : Tracks rel procedure plain)
    (hnext : ∀ result, Tracks rel (next result) (follow result)) :
    Tracks rel (procedure >>= next) (plain >>= follow) := by
  intro state start hrel
  change Option.Rel _ (Procedure.andThen procedure next state)
    (Procedure.andThen plain follow start)
  have hrun := hfirst state start hrel
  rw [Procedure.andThen, Procedure.andThen]
  generalize procedure state = done at hrun ⊢
  generalize plain start = found at hrun ⊢
  cases hrun with
  | none => exact .none
  | @some done found hpair =>
      obtain ⟨after, outcome⟩ := done
      obtain ⟨final, result⟩ := found
      obtain ⟨hafter, hsame⟩ := hpair
      replace hsame : outcome = result := hsame
      subst hsame
      cases outcome with
      | error failure => exact .some ⟨hafter, rfl⟩
      | ok result => exact hnext result after final hafter

theorem Tracks.forEach {I : Type} {body : I → Procedure S E Nat} {other : I → Procedure T E Nat}
    (hbody : ∀ item, Tracks rel (body item) (other item)) (items : List I) :
    Tracks rel (Procedures.forEach items body) (Procedures.forEach items other) := by
  induction items with
  | nil => exact .pure 0
  | cons item rest ih =>
      refine (hbody item).bind fun count => ?_
      exact ih.bind fun others => .pure (count + others)

/-- What the one leads to, the other does beside it. -/
theorem Tracks.leads {post : Except E A → T → Prop} {start : T}
    (htracks : Tracks rel procedure plain) (hrel : rel state start)
    (hleads : Leads plain start post) :
    Leads procedure state fun outcome after => ∃ found, rel after found ∧ post outcome found := by
  obtain ⟨outcome, found, hrun, hpost⟩ := hleads
  have hboth := htracks state start hrel
  rw [hrun] at hboth
  generalize hdone : procedure state = done at hboth
  cases hboth with
  | @some done _ hpair =>
      obtain ⟨after, result⟩ := done
      obtain ⟨hafter, hsame⟩ := hpair
      replace hsame : result = outcome := hsame
      subst hsame
      exact ⟨result, after, hdone, found, hafter, hpost⟩

end Tracks

end Procedures
