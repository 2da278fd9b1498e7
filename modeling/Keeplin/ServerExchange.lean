/-
The exchange of a database with its sync server over a WebSocket.  A call that sends
changes makes up to four attempts, between which other calls may use the connection; a
call that receives reads what is there, up to a number of texts.
-/
import Mathlib.Algebra.Group.Nat.Defs
import Keeplin.Sockets
import Keeplin.ChangeFrames
import Keeplin.LabelledRun

namespace Keeplin

open Json

/-- What comes in on a connection: a text, which may not be JSON, the end, which is also
what a broken connection comes to, or something that is passed over. -/
inductive Inbound where
  | text (content : Option Value)
  | close
  | other

def Inbound.isText : Inbound → Bool
  | .text _ => true
  | _ => false

/-- A text handed over: for which call, the greeting being for none, and whether the
connection took it. -/
structure Handed where
  call : Option Nat
  content : Value
  taken : Bool

inductive CallStatus where
  | skipped
  | running
  | sent
  | failed (text : String)
deriving DecidableEq

/-- A call of `send_changes`: its failed attempts, the pauses it made and how it stands. -/
structure SendCall where
  batchId : Uuid
  changes : List Change
  attempt : Nat
  slept : List Nat
  status : CallStatus

/-- What comes of connecting: no connection, one that does not take the greeting, or one
that does. -/
inductive Dial where
  | refused
  | unauthenticated
  | opened

/-- The connections, the calls that send, what each call that received has read and when,
and the changes these calls returned, one after the other. -/
structure Exchange where
  line : Line Handed Inbound
  calls : List SendCall
  segments : List (DateTime × List Inbound)
  received : List Change

inductive ExchangeStep where
  | send (batchId : Uuid) (changes : List Change)
  | attempt (call : Nat) (dial : Dial) (failure : Option String)
  | receive (now : DateTime) (dial : Dial)
  | arrive (frame : Inbound)

def MAX_WS_MESSAGES : Nat := 1000

namespace Exchange

variable (forms : TextForms) (serverUrl token deviceId : String)

def greeting (taken : Bool) : Handed :=
  ⟨none, TextForms.authPayload token deviceId, taken⟩

/-- Connect where there is no connection and a server is configured. -/
def ensureWs (dial : Dial) (line : Line Handed Inbound) : Line Handed Inbound :=
  match line.current with
  | some _ => line
  | none =>
      if serverUrl = "" then line
      else
        match dial with
        | .refused => line
        | .unauthenticated => (line.become (.fresh (greeting token deviceId false))).drop
        | .opened => line.become (.fresh (greeting token deviceId true))

def changesOf (now : DateTime) : Inbound → List Change
  | .text (some content) => forms.readBatch now content
  | _ => []

/-- Read what is there.  The result is the changes, how many frames were read, and whether
the connection is at its end. -/
def receiveLoop (now : DateTime) (msgCount : Nat) (changes : List Change) :
    List Inbound → List Change × Nat × Bool
  | [] => (changes, 0, false)
  | frame :: rest =>
      if MAX_WS_MESSAGES ≤ msgCount then (changes, 0, false)
      else
        match frame with
        | .close => (changes, 1, true)
        | .text content =>
            let (changes, read, closed) :=
              receiveLoop now (msgCount + 1) (changes ++ changesOf forms now (.text content)) rest
            (changes, read + 1, closed)
        | .other =>
            let (changes, read, closed) := receiveLoop now msgCount changes rest
            (changes, read + 1, closed)

def noConnection (changes : List Change) : String :=
  "cannot send " ++ toString changes.length ++ " change(s): no WebSocket connection to " ++
    serverUrl

def payload (call : SendCall) : Value :=
  forms.changesPayload call.batchId deviceId call.changes

/-- The call after a failed attempt: another one is made after a pause, or none. -/
def failedAttempt (call : SendCall) (failure : String) : SendCall :=
  if call.attempt < 3 then
    { call with attempt := call.attempt + 1, slept := call.slept ++ [2 ^ call.attempt] }
  else { call with attempt := call.attempt + 1, status := .failed failure }

def exchangeStep (exchange : Exchange) : ExchangeStep → Option Exchange
  | .send batchId changes =>
      let status : CallStatus := if changes = [] ∨ serverUrl = "" then .skipped else .running
      some { exchange with calls := exchange.calls ++ [⟨batchId, changes, 0, [], status⟩] }
  | .attempt position dial failure =>
      match exchange.calls[position]? with
      | none => none
      | some call =>
          if call.status ≠ .running then none
          else
            let line := ensureWs serverUrl token deviceId dial exchange.line
            match line.current with
            | none =>
                some { exchange with
                  line
                  calls := exchange.calls.set position
                    { call with status := .failed (noConnection serverUrl call.changes) } }
            | some socket =>
                let text := payload forms deviceId call
                match failure with
                | none =>
                    some { exchange with
                      line := line.become (socket.hand ⟨some position, text, true⟩)
                      calls := exchange.calls.set position { call with status := .sent } }
                | some failure =>
                    some { exchange with
                      line := (line.become (socket.hand ⟨some position, text, false⟩)).drop
                      calls := exchange.calls.set position (failedAttempt call failure) }
  | .receive now dial =>
      let line := ensureWs serverUrl token deviceId dial exchange.line
      match line.current with
      | none => some { exchange with line }
      | some socket =>
          let (changes, read, closed) := receiveLoop forms now 0 [] socket.waiting
          let line := line.become (socket.take read)
          some { exchange with
            line := if closed then line.drop else line
            segments := exchange.segments ++ [(now, socket.waiting.take read)]
            received := exchange.received ++ changes }
  | .arrive frame =>
      match exchange.line.current with
      | none => none
      | some socket => some { exchange with line := exchange.line.become (socket.arrive frame) }

/-- A database that has just been opened. -/
def started (dial : Dial) : Exchange :=
  ⟨ensureWs serverUrl token deviceId dial .idle, [], [], []⟩

/-- A call reads up to the end of the connection, of what is there or of its number. -/
structure Drained (msgCount : Nat) (frames : List Inbound) (read : Nat) (closed : Bool) :
    Prop where
  texts : msgCount + (frames.take read).countP Inbound.isText ≤ MAX_WS_MESSAGES
  ended : closed = true → (frames.take read).getLast? = some .close
  opened : closed = false → .close ∉ frames.take read
  stopped : closed = false → frames.drop read = [] ∨
    msgCount + (frames.take read).countP Inbound.isText = MAX_WS_MESSAGES

theorem Drained.cons {msgCount read : Nat} {frame : Inbound} {rest : List Inbound} {closed : Bool}
    (hframe : frame ≠ .close)
    (hdrained : Drained (msgCount + if frame.isText then 1 else 0) rest read closed) :
    Drained msgCount (frame :: rest) (read + 1) closed := by
  have hcount : msgCount + ((frame :: rest).take (read + 1)).countP Inbound.isText =
      (msgCount + if frame.isText then 1 else 0) + (rest.take read).countP Inbound.isText := by
    rw [List.take_succ_cons, List.countP_cons]
    omega
  constructor
  · rw [hcount]
    exact hdrained.texts
  · intro hclosed
    rw [List.take_succ_cons, List.getLast?_cons, hdrained.ended hclosed, Option.getD_some]
  · intro hclosed hmem
    rcases List.mem_cons.mp hmem with heq | hrest
    · exact hframe heq.symm
    · exact hdrained.opened hclosed hrest
  · rw [hcount]
    exact hdrained.stopped

theorem receiveLoop_spec (now : DateTime) (frames : List Inbound) {msgCount : Nat}
    (hcount : msgCount ≤ MAX_WS_MESSAGES) (changes : List Change) :
    ∃ read closed, receiveLoop forms now msgCount changes frames =
        (changes ++ (frames.take read).flatMap (changesOf forms now), read, closed) ∧
      Drained msgCount frames read closed := by
  induction frames generalizing msgCount changes with
  | nil =>
      exact ⟨0, false, by simp [receiveLoop], ⟨by simpa using hcount, by simp, by simp, by simp⟩⟩
  | cons frame rest ih =>
      by_cases hfull : MAX_WS_MESSAGES ≤ msgCount
      · have heq : msgCount = MAX_WS_MESSAGES := Nat.le_antisymm hcount hfull
        exact ⟨0, false, by simp [receiveLoop, hfull],
          ⟨by simpa using hcount, by simp, by simp, by simp [heq]⟩⟩
      · have hbelow : msgCount + 1 ≤ MAX_WS_MESSAGES := Nat.lt_of_not_le hfull
        cases frame with
        | close =>
            refine ⟨1, true, by simp [receiveLoop, hfull, changesOf], ?_⟩
            exact ⟨by simpa [Inbound.isText] using hcount, by simp, by simp, by simp⟩
        | text content =>
            obtain ⟨read, closed, hloop, hdrained⟩ :=
              ih hbelow (changes ++ changesOf forms now (.text content))
            refine ⟨read + 1, closed, by simp [receiveLoop, hfull, hloop], ?_⟩
            exact .cons Inbound.noConfusion hdrained
        | other =>
            obtain ⟨read, closed, hloop, hdrained⟩ := ih hcount changes
            refine ⟨read + 1, closed, by simp [receiveLoop, hfull, hloop, changesOf], ?_⟩
            exact .cons Inbound.noConfusion hdrained

/-- What a call has handed over: its batch, once for each failed attempt and once more if
it was sent. -/
def texts (position : Nat) (call : SendCall) : List Handed :=
  List.replicate call.attempt ⟨some position, payload forms deviceId call, false⟩ ++
    if call.status = .sent then [⟨some position, payload forms deviceId call, true⟩] else []

structure CallSound (call : SendCall) : Prop where
  attempts : call.attempt ≤ 4
  slept : call.slept = [1, 2, 4].take call.attempt
  running : call.status = .running → call.attempt ≤ 3
  sent : call.status = .sent → call.attempt ≤ 3
  failed : ∀ text, call.status = .failed text →
    call.attempt = 4 ∨ text = noConnection serverUrl call.changes
  skipped : call.status = .skipped → call.attempt = 0 ∧ (call.changes = [] ∨ serverUrl = "")

/-- A connection begins with its greeting, and has nothing else unless that was taken. -/
def Greeted (socket : Socket Handed Inbound) : Prop :=
  ∃ taken rest, socket.handed = greeting token deviceId taken :: rest ∧
    (∀ text ∈ rest, text.call.isSome) ∧ (taken = false → rest = [])

/-- What came to its end, or did not take a text, has nothing after that. -/
def Ended (socket : Socket Handed Inbound) : Prop :=
  (∃ text, socket.handed.getLast? = some text ∧ text.taken = false) ∨
    socket.consumed.getLast? = some .close

def Working (socket : Socket Handed Inbound) : Prop :=
  (∀ text ∈ socket.handed, text.taken = true) ∧ .close ∉ socket.consumed

structure Exact (exchange : Exchange) : Prop where
  received : exchange.received = exchange.segments.flatMap fun segment =>
    segment.2.flatMap (changesOf forms segment.1)
  segments : exchange.segments.flatMap Prod.snd = exchange.line.consumed
  bounded : ∀ segment ∈ exchange.segments,
    segment.2.countP Inbound.isText ≤ MAX_WS_MESSAGES
  texts : ∀ position, exchange.line.handed.filter (fun text => text.call = some position) =
    (exchange.calls[position]?).elim [] (texts forms deviceId position)
  calls : ∀ call ∈ exchange.calls, CallSound serverUrl call
  greeted : ∀ socket ∈ exchange.line.sockets, Greeted token deviceId socket
  ended : ∀ socket ∈ exchange.line.past, Ended socket
  working : ∀ socket ∈ exchange.line.current, Working socket

section Connect

variable {serverUrl token deviceId} {dial : Dial} {line : Line Handed Inbound}

/-- Connecting gives up nothing and hands over a greeting at most. -/
theorem ensureWs_cases (serverUrl token deviceId : String) (dial : Dial)
    (line : Line Handed Inbound) :
    ensureWs serverUrl token deviceId dial line = line ∨
      line.current = none ∧ ∃ taken : Bool,
        ensureWs serverUrl token deviceId dial line =
          if taken then line.become (.fresh (greeting token deviceId taken))
          else (line.become (.fresh (greeting token deviceId taken))).drop := by
  unfold ensureWs
  split
  · exact .inl rfl
  · next hnone =>
      split
      · exact .inl rfl
      · cases dial with
        | refused => exact .inl rfl
        | unauthenticated => exact .inr ⟨hnone, false, rfl⟩
        | opened => exact .inr ⟨hnone, true, rfl⟩

end Connect

section Steps

variable {forms serverUrl token deviceId} {exchange : Exchange}

theorem greeted_fresh (taken : Bool) :
    Greeted token deviceId (.fresh (greeting token deviceId taken)) :=
  ⟨taken, [], rfl, by simp, fun _ => rfl⟩

theorem Exact.ensureWs (hexact : exchange.Exact forms serverUrl token deviceId) (dial : Dial) :
    ({ exchange with line := ensureWs serverUrl token deviceId dial exchange.line } :
      Exchange).Exact forms serverUrl token deviceId := by
  rcases ensureWs_cases serverUrl token deviceId dial exchange.line with
    hsame | ⟨hnone, taken, hline⟩
  · rw [hsame]
    exact hexact
  · have hhanded : (Exchange.ensureWs serverUrl token deviceId dial exchange.line).handed =
        exchange.line.handed ++ [greeting token deviceId taken] := by
      rw [hline]
      cases taken
      · exact (Line.handed_drop _).trans (Line.handed_fresh hnone _)
      · exact Line.handed_fresh hnone _
    have hconsumed : (Exchange.ensureWs serverUrl token deviceId dial exchange.line).consumed =
        exchange.line.consumed := by
      rw [hline]
      cases taken
      · exact (Line.consumed_drop _).trans (Line.consumed_fresh hnone _)
      · exact Line.consumed_fresh hnone _
    have hsockets : (Exchange.ensureWs serverUrl token deviceId dial exchange.line).sockets =
        exchange.line.sockets ++ [.fresh (greeting token deviceId taken)] := by
      rw [hline, Line.sockets_of_none hnone]
      cases taken
      · exact Line.sockets_drop _
      · rfl
    constructor
    · exact hexact.received
    · rw [hconsumed]
      exact hexact.segments
    · exact hexact.bounded
    · intro position
      rw [hhanded, List.filter_append, ← hexact.texts position]
      simp [greeting]
    · exact hexact.calls
    · intro socket hsocket
      rw [hsockets] at hsocket
      rcases List.mem_append.mp hsocket with hold | hnew
      · exact hexact.greeted socket hold
      · rw [List.mem_singleton.mp hnew]
        exact greeted_fresh taken
    · intro socket hsocket
      rw [hline] at hsocket
      cases taken with
      | true => exact hexact.ended socket hsocket
      | false =>
          rcases List.mem_append.mp hsocket with hold | hnew
          · exact hexact.ended socket hold
          · rw [List.mem_singleton.mp hnew]
            exact .inl ⟨_, rfl, rfl⟩
    · intro socket hsocket
      rw [hline] at hsocket
      cases taken with
      | true =>
          obtain rfl := Option.some.inj hsocket
          exact ⟨by simp [Socket.fresh, greeting], List.not_mem_nil⟩
      | false => contradiction

/-- What a step hands over besides greetings is one text of its call, on the current
connection. -/
theorem Exact.hand (hexact : exchange.Exact forms serverUrl token deviceId)
    {socket : Socket Handed Inbound} (hcurrent : exchange.line.current = some socket)
    {position : Nat} {call next : SendCall} (hcall : exchange.calls[position]? = some call)
    {text : Handed} (htext : text.call = some position)
    (htexts : Exchange.texts forms deviceId position next =
      Exchange.texts forms deviceId position call ++ [text])
    (hsound : CallSound serverUrl next) :
    ({ exchange with
        line := if text.taken then exchange.line.become (socket.hand text)
          else (exchange.line.become (socket.hand text)).drop
        calls := exchange.calls.set position next } : Exchange).Exact
      forms serverUrl token deviceId := by
  have hposition : position < exchange.calls.length :=
    (List.getElem?_eq_some_iff.mp hcall).1
  have hhanded : (if text.taken then exchange.line.become (socket.hand text)
      else (exchange.line.become (socket.hand text)).drop).handed =
        exchange.line.handed ++ [text] := by
    split
    · exact Line.handed_hand hcurrent text
    · exact (Line.handed_drop _).trans (Line.handed_hand hcurrent text)
  have hconsumed : (if text.taken then exchange.line.become (socket.hand text)
      else (exchange.line.become (socket.hand text)).drop).consumed =
        exchange.line.consumed := by
    split
    · exact Line.consumed_same hcurrent rfl
    · exact (Line.consumed_drop _).trans (Line.consumed_same hcurrent rfl)
  have hsockets : (if text.taken then exchange.line.become (socket.hand text)
      else (exchange.line.become (socket.hand text)).drop).sockets =
        exchange.line.past ++ [socket.hand text] := by
    split
    · rfl
    · exact Line.sockets_drop _
  have hsocket : socket ∈ exchange.line.sockets := by
    rw [Line.sockets_of_current hcurrent]
    exact List.mem_append_right _ List.mem_cons_self
  have hworking := hexact.working socket hcurrent
  have hgreeted : Greeted token deviceId (socket.hand text) := by
    obtain ⟨taken, rest, hsame, hrest, hfailed⟩ := hexact.greeted socket hsocket
    refine ⟨taken, rest ++ [text], by rw [Socket.hand, hsame, List.cons_append], ?_, ?_⟩
    · intro other hother
      rcases List.mem_append.mp hother with hold | hnew
      · exact hrest other hold
      · rw [List.mem_singleton.mp hnew, htext]
        rfl
    · rintro rfl
      have hmem : greeting token deviceId false ∈ socket.handed := by
        rw [hsame]
        exact List.mem_cons_self
      have htaken := hworking.1 _ hmem
      contradiction
  constructor
  · exact hexact.received
  · rw [hconsumed]
    exact hexact.segments
  · exact hexact.bounded
  · intro other
    rw [hhanded, List.filter_append, hexact.texts other, List.getElem?_set]
    by_cases hsame : position = other
    · subst hsame
      rw [if_pos rfl, if_pos hposition, hcall]
      simp [htext, htexts]
    · have hne : text.call ≠ some other := by
        rw [htext]
        exact fun heq => hsame (Option.some.inj heq)
      rw [if_neg hsame]
      simp [hne]
  · intro found hfound
    rcases List.mem_or_eq_of_mem_set hfound with hold | rfl
    · exact hexact.calls found hold
    · exact hsound
  · intro found hfound
    rw [hsockets] at hfound
    rcases List.mem_append.mp hfound with hold | hnew
    · exact hexact.greeted found (List.mem_append_left _ hold)
    · rw [List.mem_singleton.mp hnew]
      exact hgreeted
  · intro found hfound
    by_cases htaken : text.taken = true
    · rw [if_pos htaken] at hfound
      exact hexact.ended found hfound
    · rw [if_neg htaken] at hfound
      rcases List.mem_append.mp hfound with hold | hnew
      · exact hexact.ended found hold
      · rw [List.mem_singleton.mp hnew]
        exact .inl ⟨text, by simp [Socket.hand], Bool.eq_false_iff.mpr htaken⟩
  · intro found hfound
    by_cases htaken : text.taken = true
    · rw [if_pos htaken] at hfound
      obtain rfl := Option.some.inj hfound
      refine ⟨?_, hworking.2⟩
      intro other hother
      rcases List.mem_append.mp hother with hold | hnew
      · exact hworking.1 other hold
      · rw [List.mem_singleton.mp hnew, htaken]
    · rw [if_neg htaken] at hfound
      contradiction

/-- A call may change how it stands without handing over anything. -/
theorem Exact.setCall (hexact : exchange.Exact forms serverUrl token deviceId)
    {position : Nat} {call next : SendCall} (hcall : exchange.calls[position]? = some call)
    (htexts : Exchange.texts forms deviceId position next =
      Exchange.texts forms deviceId position call)
    (hsound : CallSound serverUrl next) :
    ({ exchange with calls := exchange.calls.set position next } : Exchange).Exact
      forms serverUrl token deviceId where
  received := hexact.received
  segments := hexact.segments
  bounded := hexact.bounded
  texts := fun other => by
    rw [hexact.texts other, List.getElem?_set]
    split
    · next hsame =>
        subst hsame
        rw [if_pos (List.getElem?_eq_some_iff.mp hcall).1, hcall]
        exact htexts.symm
    · rfl
  calls := fun found hfound => by
    rcases List.mem_or_eq_of_mem_set hfound with hold | rfl
    · exact hexact.calls found hold
    · exact hsound
  greeted := hexact.greeted
  ended := hexact.ended
  working := hexact.working

theorem failedAttempt_sound {call : SendCall} (hsound : CallSound serverUrl call)
    (hrunning : call.status = .running) (failure : String) :
    CallSound serverUrl (failedAttempt call failure) := by
  have hattempt := hsound.running hrunning
  have hslept := hsound.slept
  rw [failedAttempt]
  split
  · next hmore =>
      constructor
      · simp only
        omega
      · obtain hzero | hone | htwo : call.attempt = 0 ∨ call.attempt = 1 ∨ call.attempt = 2 := by
          omega
        all_goals simp_all
      · simp only
        omega
      · simp only
        omega
      · intro text htext
        rw [hrunning] at htext
        contradiction
      · intro hskipped
        rw [hrunning] at hskipped
        contradiction
  · next hlast =>
      have hthree : call.attempt = 3 := by omega
      refine ⟨by simp [hthree], ?_, nofun, nofun, fun _ _ => .inl (by simp [hthree]), nofun⟩
      simp [hslept, hthree]

theorem texts_of_running {call : SendCall} (hrunning : call.status = .running) (position : Nat) :
    texts forms deviceId position call =
      List.replicate call.attempt ⟨some position, payload forms deviceId call, false⟩ := by
  rw [texts, hrunning, if_neg CallStatus.noConfusion, List.append_nil]

theorem texts_failedAttempt {call : SendCall} (hrunning : call.status = .running)
    (position : Nat) (failure : String) :
    texts forms deviceId position (failedAttempt call failure) =
      texts forms deviceId position call ++
        [⟨some position, payload forms deviceId call, false⟩] := by
  rw [texts_of_running hrunning, texts, failedAttempt]
  split
  · simp [hrunning, payload, List.replicate_succ']
  · simp [payload, List.replicate_succ']

theorem Exact.received_take (hexact : exchange.Exact forms serverUrl token deviceId)
    {socket : Socket Handed Inbound} (hcurrent : exchange.line.current = some socket)
    {now : DateTime} {read : Nat} {closed : Bool}
    (hdrained : Drained 0 socket.waiting read closed) :
    ({ exchange with
        line := if closed then (exchange.line.become (socket.take read)).drop
          else exchange.line.become (socket.take read)
        segments := exchange.segments ++ [(now, socket.waiting.take read)]
        received := exchange.received ++
          (socket.waiting.take read).flatMap (changesOf forms now) } : Exchange).Exact
      forms serverUrl token deviceId := by
  have hhanded : (if closed then (exchange.line.become (socket.take read)).drop
      else exchange.line.become (socket.take read)).handed = exchange.line.handed := by
    split
    · exact (Line.handed_drop _).trans (Line.handed_same hcurrent rfl)
    · exact Line.handed_same hcurrent rfl
  have hconsumed : (if closed then (exchange.line.become (socket.take read)).drop
      else exchange.line.become (socket.take read)).consumed =
        exchange.line.consumed ++ socket.waiting.take read := by
    split
    · exact (Line.consumed_drop _).trans (Line.consumed_take hcurrent read)
    · exact Line.consumed_take hcurrent read
  have hsockets : (if closed then (exchange.line.become (socket.take read)).drop
      else exchange.line.become (socket.take read)).sockets =
        exchange.line.past ++ [socket.take read] := by
    split
    · exact Line.sockets_drop _
    · rfl
  have hsocket : socket ∈ exchange.line.sockets := by
    rw [Line.sockets_of_current hcurrent]
    exact List.mem_append_right _ List.mem_cons_self
  have hworking := hexact.working socket hcurrent
  have htexts := hdrained.texts
  rw [Nat.zero_add] at htexts
  constructor
  · simp only [List.flatMap_append, List.flatMap_singleton]
    rw [← hexact.received]
  · simp only [List.flatMap_append, List.flatMap_singleton]
    rw [hconsumed, hexact.segments]
  · intro segment hsegment
    rcases List.mem_append.mp hsegment with hold | hnew
    · exact hexact.bounded segment hold
    · rw [List.mem_singleton.mp hnew]
      exact htexts
  · intro position
    rw [hhanded]
    exact hexact.texts position
  · exact hexact.calls
  · intro found hfound
    rw [hsockets] at hfound
    rcases List.mem_append.mp hfound with hold | hnew
    · exact hexact.greeted found (List.mem_append_left _ hold)
    · rw [List.mem_singleton.mp hnew]
      exact hexact.greeted socket hsocket
  · intro found hfound
    cases closed with
    | false => exact hexact.ended found hfound
    | true =>
        rcases List.mem_append.mp hfound with hold | hnew
        · exact hexact.ended found hold
        · rw [List.mem_singleton.mp hnew]
          refine .inr ?_
          rw [Socket.take, List.getLast?_append, hdrained.ended rfl]
          rfl
  · intro found hfound
    cases closed with
    | true => contradiction
    | false =>
        obtain rfl := Option.some.inj hfound
        refine ⟨hworking.1, fun hmem => ?_⟩
        rcases List.mem_append.mp hmem with hold | hnew
        · exact hworking.2 hold
        · exact hdrained.opened rfl hnew

theorem Exact.arrive (hexact : exchange.Exact forms serverUrl token deviceId)
    {socket : Socket Handed Inbound} (hcurrent : exchange.line.current = some socket)
    (frame : Inbound) :
    ({ exchange with line := exchange.line.become (socket.arrive frame) } : Exchange).Exact
      forms serverUrl token deviceId where
  received := hexact.received
  segments := by
    have hsame : (socket.arrive frame).consumed = socket.consumed := rfl
    exact hexact.segments.trans (Line.consumed_same hcurrent hsame).symm
  bounded := hexact.bounded
  texts := fun position => by
    have hsame : (socket.arrive frame).handed = socket.handed := rfl
    rw [Line.handed_same hcurrent hsame]
    exact hexact.texts position
  calls := hexact.calls
  greeted := fun found hfound => by
    rcases List.mem_append.mp hfound with hold | hnew
    · exact hexact.greeted found (List.mem_append_left _ hold)
    · obtain rfl := List.mem_singleton.mp hnew
      have hsocket : socket ∈ exchange.line.sockets := by
        rw [Line.sockets_of_current hcurrent]
        exact List.mem_append_right _ List.mem_cons_self
      exact hexact.greeted socket hsocket
  ended := hexact.ended
  working := fun found hfound => by
    obtain rfl := Option.some.inj hfound
    exact hexact.working socket hcurrent

theorem Exact.send (hexact : exchange.Exact forms serverUrl token deviceId) (batchId : Uuid)
    (changes : List Change) :
    ({ exchange with
        calls := exchange.calls ++
          [⟨batchId, changes, 0, [],
            if changes = [] ∨ serverUrl = "" then .skipped else .running⟩] } : Exchange).Exact
      forms serverUrl token deviceId where
  received := hexact.received
  segments := hexact.segments
  bounded := hexact.bounded
  texts := fun position => by
    rw [hexact.texts position, List.getElem?_append]
    split
    · rfl
    · next hlength =>
        rw [List.getElem?_eq_none (Nat.le_of_not_lt hlength)]
        cases hposition : position - exchange.calls.length with
        | zero =>
            simp only [List.getElem?_cons_zero, Option.elim_some, Option.elim_none, Exchange.texts,
              List.replicate_zero, List.nil_append]
            split <;> simp
        | succ _ => rfl
  calls := fun call hcall => by
    rcases List.mem_append.mp hcall with hold | hnew
    · exact hexact.calls call hold
    · rw [List.mem_singleton.mp hnew]
      split
      · next hskipped => exact ⟨by simp, rfl, nofun, nofun, nofun, fun _ => ⟨rfl, hskipped⟩⟩
      · exact ⟨by simp, rfl, fun _ => by simp, nofun, nofun, nofun⟩
  greeted := hexact.greeted
  ended := hexact.ended
  working := hexact.working

theorem exchangeStep_exact {next : Exchange} {step : ExchangeStep}
    (hexact : exchange.Exact forms serverUrl token deviceId)
    (hstep : exchangeStep forms serverUrl token deviceId exchange step = some next) :
    next.Exact forms serverUrl token deviceId := by
  cases step with
  | send batchId changes =>
      obtain rfl := Option.some.inj hstep
      exact hexact.send batchId changes
  | attempt position dial failure =>
      have hensured := hexact.ensureWs dial
      simp only [exchangeStep] at hstep
      split at hstep
      · contradiction
      next call hcall =>
      split at hstep
      · contradiction
      next hstatus =>
      have hrunning : call.status = .running := Decidable.not_not.mp hstatus
      have hsound := hexact.calls call (List.mem_of_getElem? hcall)
      split at hstep
      · obtain rfl := Option.some.inj hstep
        refine hensured.setCall hcall ?_ ?_
        · simp [texts, payload, hrunning]
        · exact ⟨hsound.attempts, hsound.slept, nofun, nofun,
            fun text htext => .inr (CallStatus.failed.inj htext).symm, nofun⟩
      next socket hcurrent =>
      cases failure with
      | none =>
          obtain rfl := Option.some.inj hstep
          have htext : (⟨some position, payload forms deviceId call, true⟩ : Handed).call =
              some position := rfl
          refine hensured.hand hcurrent hcall htext ?_ ?_
          · simp [texts, payload, hrunning]
          · exact ⟨hsound.attempts, hsound.slept, nofun, fun _ => hsound.running hrunning, nofun,
              nofun⟩
      | some failure =>
          obtain rfl := Option.some.inj hstep
          have htext : (⟨some position, payload forms deviceId call, false⟩ : Handed).call =
              some position := rfl
          exact hensured.hand hcurrent hcall htext
            (texts_failedAttempt hrunning position failure)
            (failedAttempt_sound hsound hrunning failure)
  | receive now dial =>
      have hensured := hexact.ensureWs dial
      simp only [exchangeStep] at hstep
      split at hstep
      · obtain rfl := Option.some.inj hstep
        exact hensured
      next socket hcurrent =>
      obtain ⟨read, closed, hloop, hdrained⟩ :=
        receiveLoop_spec forms now socket.waiting (Nat.zero_le _) []
      rw [hloop] at hstep
      obtain rfl := Option.some.inj hstep
      exact hensured.received_take hcurrent hdrained
  | arrive frame =>
      simp only [exchangeStep] at hstep
      split at hstep
      · contradiction
      · next socket hcurrent =>
          obtain rfl := Option.some.inj hstep
          exact hexact.arrive hcurrent frame

end Steps

theorem started_exact (dial : Dial) :
    (started serverUrl token deviceId dial).Exact forms serverUrl token deviceId := by
  have hidle : (⟨.idle, [], [], []⟩ : Exchange).Exact forms serverUrl token deviceId := by
    refine ⟨rfl, rfl, nofun, fun _ => rfl, nofun, nofun, nofun, nofun⟩
  exact hidle.ensureWs dial

/-- In every run, whatever the order of the steps: what the calls returned is what came in,
read once, in its order and without gaps on each connection; each batch went out as often as
its call failed to send it, at most four times, and then once; and a connection is given up
only at its end or over a text that it did not take. -/
theorem exchangeRun_exact {dial : Dial} {steps : List ExchangeStep} {exchange : Exchange}
    (hrun : runAll (exchangeStep forms serverUrl token deviceId)
      (started serverUrl token deviceId dial) steps = some exchange) :
    exchange.Exact forms serverUrl token deviceId :=
  runAll_invariant _ (fun _ _ _ hexact hstep => exchangeStep_exact hexact hstep)
    (started_exact forms serverUrl token deviceId dial) hrun

/-- A batch of a device, as it comes in. -/
structure Batch where
  batchId : Uuid
  deviceId : String
  changes : List Change

def Batch.frame (batch : Batch) : Inbound :=
  .text (some (forms.changesPayload batch.batchId batch.deviceId batch.changes))

section Backlog

variable {forms serverUrl token deviceId}

theorem changesOf_batches (now : DateTime) {frames : List Inbound} {batches : List Batch}
    (hframes : frames.filter Inbound.isText = batches.map (Batch.frame forms)) :
    frames.flatMap (changesOf forms now) = batches.flatMap Batch.changes := by
  induction frames generalizing batches with
  | nil =>
      obtain rfl : batches = [] := List.map_eq_nil_iff.mp hframes.symm
      rfl
  | cons frame rest ih =>
      cases htext : frame.isText with
      | false =>
          rw [List.filter_cons_of_neg (by simp [htext])] at hframes
          have hnone : changesOf forms now frame = [] := by
            cases frame with
            | text content => contradiction
            | _ => rfl
          rw [List.flatMap_cons, hnone, ih hframes]
          rfl
      | true =>
          rw [List.filter_cons_of_pos htext] at hframes
          cases batches with
          | nil => contradiction
          | cons batch batches =>
              obtain ⟨rfl, hrest⟩ := List.cons.inj hframes
              rw [List.flatMap_cons, List.flatMap_cons, ih hrest, Batch.frame, changesOf,
                forms.readBatch_changesPayload]

/-- A call on an open connection reads all texts or its full number of them. -/
theorem receive_waiting {exchange next : Exchange} {socket : Socket Handed Inbound}
    {now : DateTime} {dial : Dial} (hcurrent : exchange.line.current = some socket)
    (hopen : .close ∉ socket.waiting)
    (hstep : exchangeStep forms serverUrl token deviceId exchange (.receive now dial) =
      some next) :
    ∃ read, next.line.current = some (socket.take read) ∧
      next.received =
        exchange.received ++ (socket.waiting.take read).flatMap (changesOf forms now) ∧
      (socket.waiting.drop read = [] ∨
        (socket.waiting.take read).countP Inbound.isText = MAX_WS_MESSAGES) := by
  have hline : ensureWs serverUrl token deviceId dial exchange.line = exchange.line := by
    simp only [ensureWs, hcurrent]
  obtain ⟨read, closed, hloop, hdrained⟩ :=
    receiveLoop_spec forms now socket.waiting (Nat.zero_le _) []
  have hclosed : closed = false := by
    refine Bool.eq_false_iff.mpr fun hclosed => hopen ?_
    exact List.mem_of_mem_take (List.mem_of_getLast? (hdrained.ended hclosed))
  subst hclosed
  simp only [exchangeStep, hline, hcurrent, hloop] at hstep
  obtain rfl := Option.some.inj hstep
  have hstopped := hdrained.stopped rfl
  rw [Nat.zero_add] at hstopped
  exact ⟨read, rfl, rfl, hstopped⟩

/-- As many batches as may be waiting on an open connection, a call for every thousand of
them returns the changes of all, in their order. -/
theorem receive_backlog {exchange next : Exchange} {socket : Socket Handed Inbound}
    {batches : List Batch} {dial : Dial} (nows : List DateTime)
    (hcurrent : exchange.line.current = some socket) (hopen : .close ∉ socket.waiting)
    (hbatches : socket.waiting.filter Inbound.isText = batches.map (Batch.frame forms))
    (henough : batches.length ≤ MAX_WS_MESSAGES * nows.length)
    (hrun : runAll (exchangeStep forms serverUrl token deviceId) exchange
      (nows.map fun now => .receive now dial) = some next) :
    next.received = exchange.received ++ batches.flatMap Batch.changes := by
  induction nows generalizing exchange socket batches with
  | nil =>
      obtain rfl : batches = [] := List.eq_nil_of_length_eq_zero (Nat.le_zero.mp henough)
      obtain rfl := Option.some.inj hrun
      exact (List.append_nil _).symm
  | cons now nows ih =>
      obtain ⟨between, hstep, hrest⟩ := Option.bind_eq_some_iff.mp hrun
      obtain ⟨read, hnext, hreceived, hstopped⟩ := receive_waiting hcurrent hopen hstep
      have hsplit : (socket.waiting.take read ++ socket.waiting.drop read).filter Inbound.isText =
          batches.map (Batch.frame forms) := by
        rw [List.take_append_drop, hbatches]
      rw [List.filter_append] at hsplit
      obtain ⟨front, back, rfl, hfront, hback⟩ := List.map_eq_append_iff.mp hsplit.symm
      have hleft : back.length ≤ MAX_WS_MESSAGES * nows.length := by
        rcases hstopped with hnone | hfull
        · rw [hnone] at hback
          obtain rfl : back = [] := List.map_eq_nil_iff.mp hback
          exact Nat.zero_le _
        · rw [List.countP_eq_length_filter, ← hfront, List.length_map] at hfull
          rw [List.length_append, hfull, List.length_cons, Nat.mul_succ] at henough
          omega
      have hopenRest : .close ∉ (socket.take read).waiting :=
        fun hmem => hopen (List.mem_of_mem_drop hmem)
      rw [ih hnext hopenRest hback.symm hleft hrest, hreceived,
        changesOf_batches now hfront.symm, List.flatMap_append, List.append_assoc]

end Backlog

namespace Samples

def deletion : Change := .noteDelete 7 0 ∅ "B"

def batch : Batch := ⟨7, "B", [deletion, deletion]⟩

/-- A batch is not taken at first and goes out on another connection, on which a batch of
another device comes in. -/
def steps : List ExchangeStep :=
  [.send 7 [deletion], .attempt 0 .refused (some "reset"), .attempt 0 .opened none,
    .arrive (batch.frame .sample), .receive 5 .refused]

theorem exchangeRun_exact_steps :
    ∃ exchange, runAll (exchangeStep .sample "ws://h/api/sync" "t" "A")
        (started "ws://h/api/sync" "t" "A" .opened) steps = some exchange ∧
      exchange.Exact .sample "ws://h/api/sync" "t" "A" := by
  have hrun : (runAll (exchangeStep .sample "ws://h/api/sync" "t" "A")
      (started "ws://h/api/sync" "t" "A" .opened) steps).isSome = true := rfl
  obtain ⟨exchange, hexchange⟩ := Option.isSome_iff_exists.mp hrun
  exact ⟨exchange, hexchange, exchangeRun_exact .sample _ _ _ hexchange⟩

def waiting : Socket Handed Inbound :=
  ⟨[greeting "t" "A" true], [], [batch.frame .sample, .other, batch.frame .sample]⟩

def exchange : Exchange := ⟨⟨[], some waiting⟩, [], [], []⟩

theorem receive_backlog_twice :
    ∃ next, runAll (exchangeStep .sample "ws://h/api/sync" "t" "A") exchange
        ([5].map fun now => .receive now .refused) = some next ∧
      next.received = [deletion, deletion, deletion, deletion] := by
  have hrun : (runAll (exchangeStep .sample "ws://h/api/sync" "t" "A") exchange
      ([5].map fun now => .receive now .refused)).isSome = true := rfl
  obtain ⟨next, hnext⟩ := Option.isSome_iff_exists.mp hrun
  have hopen : Inbound.close ∉ waiting.waiting := by simp [waiting, Batch.frame]
  exact ⟨next, hnext, @receive_backlog .sample _ _ _ exchange next waiting [batch, batch] .refused
    [5] rfl hopen rfl (by decide) hnext⟩

end Samples

end Exchange

end Keeplin
