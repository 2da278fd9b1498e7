/-
Messages about a value, of which the last one that says anything decides.  The
order of the others does not matter, and neither does what a message says of
itself as long as the last one says what is right.
-/
import Mathlib.Data.List.Induction

namespace Keeplin

universe u v

variable {M : Type u} {V : Type v}

/-- The value after the messages, each of which may tell one. -/
def lastTold (tell : M → Option V) (messages : List M) (start : V) : V :=
  messages.foldl (fun value message => (tell message).getD value) start

section

variable {tell : M → Option V}

@[simp] theorem lastTold_nil (start : V) : lastTold tell [] start = start := rfl

@[simp] theorem lastTold_cons (message : M) (rest : List M) (start : V) :
    lastTold tell (message :: rest) start = lastTold tell rest ((tell message).getD start) := rfl

theorem lastTold_append (first second : List M) (start : V) :
    lastTold tell (first ++ second) start = lastTold tell second (lastTold tell first start) :=
  List.foldl_append

theorem lastTold_concat (front : List M) (last : M) (start : V) :
    lastTold tell (front ++ [last]) start = (tell last).getD (lastTold tell front start) :=
  lastTold_append front [last] start

/-- Messages that tell nothing leave the value. -/
theorem lastTold_of_silent {messages : List M} (hsilent : ∀ message ∈ messages, tell message = none)
    (start : V) : lastTold tell messages start = start := by
  induction messages with
  | nil => rfl
  | cons head rest ih =>
      rw [lastTold_cons, hsilent head List.mem_cons_self, Option.getD_none]
      exact ih fun message hmessage => hsilent message (List.mem_cons_of_mem head hmessage)

/-- Messages that agree on the value, if one of them tells it. -/
theorem lastTold_of_agree {messages : List M} {value : V}
    (hagree : ∀ message ∈ messages, tell message = none ∨ tell message = some value)
    (htold : ∃ message ∈ messages, tell message ≠ none) (start : V) :
    lastTold tell messages start = value := by
  induction messages generalizing start with
  | nil =>
      obtain ⟨message, hmessage, -⟩ := htold
      contradiction
  | cons head rest ih =>
      have hrest : ∀ message ∈ rest, tell message = none ∨ tell message = some value :=
        fun message hmessage => hagree message (List.mem_cons_of_mem head hmessage)
      rw [lastTold_cons]
      by_cases hlater : ∃ message ∈ rest, tell message ≠ none
      · exact ih hrest hlater _
      · push Not at hlater
        rw [lastTold_of_silent hlater]
        obtain ⟨message, hmessage, htells⟩ := htold
        rcases List.mem_cons.mp hmessage with rfl | hmem
        · rcases hagree message List.mem_cons_self with hnone | hsome
          · exact absurd hnone htells
          · rw [hsome, Option.getD_some]
        · exact absurd (hlater message hmem) htells

/-- Two readings of the messages end alike if they find the same ones silent and
the second reads what is right wherever the first does. -/
theorem lastTold_eq_of_eq {tell' : M → Option V} {messages : List M} {start right : V}
    (hsilent : ∀ message ∈ messages, tell' message = none ↔ tell message = none)
    (hright : ∀ message ∈ messages, tell message = some right → tell' message = some right)
    (hlast : lastTold tell messages start = right) : lastTold tell' messages start = right := by
  induction messages using List.reverseRecOn with
  | nil => exact hlast
  | append_singleton front last ih =>
      have hmem : last ∈ front ++ [last] := List.mem_append_right front List.mem_cons_self
      rw [lastTold_concat] at hlast ⊢
      cases htell : tell last with
      | none =>
          rw [htell, Option.getD_none] at hlast
          rw [(hsilent last hmem).mpr htell, Option.getD_none]
          exact ih (fun message hmessage => hsilent message (List.mem_append_left [last] hmessage))
            (fun message hmessage => hright message (List.mem_append_left [last] hmessage)) hlast
      | some value =>
          rw [htell, Option.getD_some] at hlast
          rw [hright last hmem (htell.trans (congrArg some hlast)), Option.getD_some]

/-- A message may be moved before those that tell nothing, or what it tells. -/
theorem lastTold_cons_eraseIdx {messages : List M} {position : Nat} {message : M}
    (hmessage : messages[position]? = some message)
    (hearlier : ∀ i < position, ∀ earlier, messages[i]? = some earlier →
      tell message = none ∨ tell earlier = none ∨ tell earlier = tell message) (start : V) :
    lastTold tell (message :: messages.eraseIdx position) start = lastTold tell messages start := by
  induction messages generalizing position start with
  | nil => contradiction
  | cons head rest ih =>
      cases position with
      | zero =>
          rw [List.getElem?_cons_zero, Option.some.injEq] at hmessage
          rw [List.eraseIdx_zero, List.tail_cons, hmessage]
      | succ position =>
          rw [List.getElem?_cons_succ] at hmessage
          have hrest := ih hmessage (fun i hi earlier hfound =>
            hearlier (i + 1) (Nat.succ_lt_succ hi) earlier (by rwa [List.getElem?_cons_succ]))
              ((tell head).getD start)
          rw [lastTold_cons] at hrest
          simp only [List.eraseIdx_cons_succ, lastTold_cons]
          rw [← hrest]
          rcases hearlier 0 (Nat.succ_pos position) head rfl with hsilent | hhead | hsame
          · rw [hsilent, Option.getD_none, Option.getD_none]
          · rw [hhead, Option.getD_none, Option.getD_none]
          · rw [hsame]

end

end Keeplin
