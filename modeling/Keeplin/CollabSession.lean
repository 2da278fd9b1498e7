/-
One device that edits one note through the server.  The stored body, the mirror
of the server's lines, the queue of messages and the server's own lines change
at different moments: a local update saves, looks at the suppression set, diffs
and queues one after the other, and so does the handling of a snapshot.
-/
import Keeplin.LabelledRun
import Keeplin.BodyDiff

namespace Keeplin

inductive CollabClientMsg where
  | join
  | op (ops : List LineOp)
deriving DecidableEq

inductive CollabServerMsg where
  | welcome (snapshot : NoteLinesSnapshot)
deriving DecidableEq

/-- A connection: whether the note was joined on it, and the messages on their
way. -/
structure CollabConnection where
  joined : Bool
  toServer : List CollabClientMsg
  toClient : List CollabServerMsg
deriving DecidableEq

/-- The server's answer to the join of this connection has come in. -/
def CollabConnection.Welcomed (connection : CollabConnection) : Prop :=
  connection.joined = true ∧ .join ∉ connection.toServer ∧ connection.toClient = []
deriving Decidable

/-- No operation among the messages. -/
def noOps (messages : List CollabClientMsg) : Prop :=
  ∀ message ∈ messages, message = .join
deriving Decidable

/-- An `update_note` that has saved its body: it looks at the suppression set,
then diffs, then queues. -/
inductive LocalUpdate where
  | saved (body : String)
  | unsuppressed (body : String)
  | diffed (ops : List LineOp)
deriving DecidableEq

/-- The body a running update has not diffed yet. -/
def LocalUpdate.body? : LocalUpdate → Option String
  | .saved body | .unsuppressed body => some body
  | .diffed _ => none

/-- How far the client is with a server message.  A snapshot for a pending note
is diffed against the stored body; any other is written over it. -/
inductive MessageHandler where
  | idle
  | reconcile (lines : NoteLines)
  | install (mirror : NoteLines) (ops : List LineOp)
  | queueOps (ops : List LineOp)
  | writeBody (body : String)
  | suppressed (body : String)
  | written
deriving DecidableEq

/-- The operations of the message in hand. -/
def MessageHandler.ops : MessageHandler → List LineOp
  | .install _ ops | .queueOps ops => ops
  | _ => []

/-- A snapshot for a pending note is in hand. -/
def MessageHandler.reconciles : MessageHandler → Bool
  | .reconcile _ | .install _ _ | .queueOps _ => true
  | _ => false

structure CollabSession where
  body : String
  mirror : Option NoteLines
  pendingPush : Bool
  /-- `create_note` has yet to queue its join. -/
  creating : Bool
  out : List CollabClientMsg
  updates : List LocalUpdate
  handler : MessageHandler
  connection : Option CollabConnection
  server : NoteLines
  /-- The body of the last local save. -/
  lastSaved : String
deriving DecidableEq

inductive CollabEvent where
  | save (body : String)
  | checkSuppressed (update : Nat)
  | push (update : Nat) (now : DateTime) (newId : Nat → Uuid)
  | queue (update : Nat)
  | queueJoin
  | connect
  | rediscover
  | send
  | serve (snapshot : NoteLinesSnapshot)
  | drop
  | receive
  | handle (now : DateTime) (newId : Nat → Uuid)

namespace CollabSession

variable (device : String)

def isSuppressed (session : CollabSession) : Bool :=
  match session.handler with
  | .suppressed _ | .written => true
  | _ => false

/-- `push_local_edit`: the mirror starts empty if there is none, and a body that
breaks a limit is not pushed. -/
def pushLocalEdit (session : CollabSession) (update : Nat) (body : String) (now : DateTime)
    (newId : Nat → Uuid) : CollabSession :=
  match (session.mirror.getD .empty).diffBody device now newId body with
  | .ok (mirror, []) =>
      { session with mirror := some mirror, updates := session.updates.eraseIdx update }
  | .ok (mirror, op :: ops) =>
      { session with
        mirror := some mirror
        updates := session.updates.set update (.diffed (op :: ops)) }
  | .error _ =>
      { session with
        mirror := some (session.mirror.getD .empty)
        updates := session.updates.eraseIdx update }

/-- The next message of the queue; a join of a joined note is left out. -/
def sendQueued (session : CollabSession) (connection : CollabConnection) :
    Option CollabSession :=
  match session.out with
  | [] => none
  | .join :: rest =>
      if connection.joined then some { session with out := rest }
      else some { session with
        out := rest
        connection := some { connection with
          joined := true
          toServer := connection.toServer ++ [.join] } }
  | .op ops :: rest =>
      some { session with
        out := rest
        connection := some { connection with toServer := connection.toServer ++ [.op ops] } }

/-- The server applies operations in the order it gets them, and answers a join
with its lines. -/
def serveNext (session : CollabSession) (connection : CollabConnection)
    (snapshot : NoteLinesSnapshot) : Option CollabSession :=
  match connection.toServer with
  | [] => none
  | .op ops :: rest =>
      some { session with
        server := session.server.applyAll ops
        connection := some { connection with toServer := rest } }
  | .join :: rest =>
      if NoteLines.fromSnapshot snapshot = session.server then
        some { session with
          connection := some { connection with
            toServer := rest
            toClient := connection.toClient ++ [.welcome snapshot] } }
      else none

def receiveNext (session : CollabSession) (connection : CollabConnection) :
    Option CollabSession :=
  match connection.toClient with
  | [] => none
  | .welcome snapshot :: rest =>
      let lines := NoteLines.fromSnapshot snapshot
      let session :=
        { session with connection := some { connection with toClient := rest } }
      if session.pendingPush then
        some { session with pendingPush := false, handler := .reconcile lines }
      else
        some { session with mirror := some lines, handler := .writeBody lines.materialize }

/-- The next step of the message in hand. -/
def handleNext (session : CollabSession) (now : DateTime) (newId : Nat → Uuid) :
    Option CollabSession :=
  match session.handler with
  | .idle => none
  | .reconcile lines =>
      match lines.diffBody device now newId session.body with
      | .ok (mirror, ops) => some { session with handler := .install mirror ops }
      | .error _ =>
          some { session with mirror := some lines, handler := .writeBody lines.materialize }
  | .install mirror [] => some { session with mirror := some mirror, handler := .idle }
  | .install mirror (op :: ops) =>
      some { session with mirror := some mirror, handler := .queueOps (op :: ops) }
  | .queueOps ops => some { session with out := session.out ++ [.op ops], handler := .idle }
  | .writeBody body =>
      if session.body = body then some { session with handler := .idle }
      else some { session with handler := .suppressed body }
  | .suppressed body => some { session with body, handler := .written }
  | .written => some { session with handler := .idle }

/-- One step of the client or the server.  The connection task is busy while it
handles a message, and what is on its way is lost with a connection. -/
def step (session : CollabSession) : CollabEvent → Option CollabSession
  | .save body =>
      if session.isSuppressed = true ∨ checkBody body = .ok () then
        some { session with
          body
          lastSaved := body
          updates := session.updates ++ [.saved body] }
      else none
  | .checkSuppressed update =>
      match session.updates[update]? with
      | some (.saved body) =>
          if session.isSuppressed then
            some { session with updates := session.updates.eraseIdx update }
          else some { session with updates := session.updates.set update (.unsuppressed body) }
      | _ => none
  | .push update now newId =>
      match session.updates[update]? with
      | some (.unsuppressed body) =>
          if session.pendingPush then
            some { session with updates := session.updates.eraseIdx update }
          else some (session.pushLocalEdit device update body now newId)
      | _ => none
  | .queue update =>
      match session.updates[update]? with
      | some (.diffed ops) =>
          some { session with
            out := session.out ++ [.op ops]
            updates := session.updates.eraseIdx update }
      | _ => none
  | .queueJoin =>
      if session.creating then
        some { session with creating := false, out := session.out ++ [.join] }
      else none
  | .connect =>
      if session.handler = .idle ∧ session.connection = none then
        some { session with connection := some ⟨true, [.join], []⟩ }
      else none
  | .rediscover =>
      match session.connection with
      | some connection =>
          if session.handler = .idle ∧ connection.joined = false then
            some { session with
              connection := some { connection with
                joined := true
                toServer := connection.toServer ++ [.join] } }
          else none
      | none => none
  | .send =>
      if session.handler = .idle then session.connection.bind session.sendQueued else none
  | .serve snapshot => session.connection.bind fun connection =>
      session.serveNext connection snapshot
  | .drop =>
      if session.handler = .idle then some { session with connection := none } else none
  | .receive =>
      if session.handler = .idle then session.connection.bind session.receiveNext else none
  | .handle now newId => session.handleNext device now newId

/-- The ids a step makes are new to the lines it diffs. -/
def Fresh (session : CollabSession) : CollabEvent → Prop
  | .push _ _ newId => (session.mirror.getD .empty).FreshIds newId
  | .handle _ newId =>
      ∀ lines, session.handler = .reconcile lines → lines.FreshIds newId
  | _ => True

/-- Where edits are safe.  A save comes while the note waits for its first
snapshot, while that is being reconciled, or after the snapshot of this
connection; saves are pushed in order, with no message in hand, and queued in
order; a connection drops with no operation on its way and, once the note is not
pending, no update running. -/
def Orderly (session : CollabSession) : CollabEvent → Prop
  | .save _ =>
      session.pendingPush = true ∨ session.handler.reconciles = true ∨
        session.handler = .idle ∧ ∃ connection ∈ session.connection, connection.Welcomed
  | .push update _ _ =>
      session.handler = .idle ∧
        ∀ earlier ∈ session.updates.take update, earlier.body? = none
  | .queue update => update = 0
  | .drop =>
      noOps session.out ∧ (∀ connection ∈ session.connection, noOps connection.toServer) ∧
        (session.pendingPush = true ∨ session.updates = [])
  | _ => True

instance (session : CollabSession) : ∀ event, Decidable (session.Orderly event)
  | .save _ => inferInstanceAs (Decidable (_ ∨ _ ∨ _ ∧ _))
  | .push _ _ _ => inferInstanceAs (Decidable (_ ∧ _))
  | .queue update => inferInstanceAs (Decidable (update = 0))
  | .drop => inferInstanceAs (Decidable (_ ∧ _ ∧ _))
  | .checkSuppressed _ | .queueJoin | .connect | .rediscover | .send | .serve _ | .receive
  | .handle _ _ => inferInstanceAs (Decidable True)

/-- A note as the client finds it: one it has from the server and reads as the
server does, or one it has just made, which waits to be pushed. -/
structure Begun (session : CollabSession) : Prop where
  handler : session.handler = .idle
  updates : session.updates = []
  out : session.out = []
  saved : session.body = session.lastSaved
  order : session.server.order.Nodup
  connection : ∀ connection, session.connection = some connection →
    connection = ⟨false, [], []⟩
  note : session.pendingPush = true ∧ checkBody session.body = .ok () ∨
    session.pendingPush = false ∧ session.server.materialize = session.lastSaved

/-- Nothing is left to do: no update, no message in hand or on its way, and the
note joined. -/
structure Drained (session : CollabSession) : Prop where
  updates : session.updates = []
  handler : session.handler = .idle
  out : session.out = []
  connection : session.connection = some ⟨true, [], []⟩

instance (session : CollabSession) : Decidable session.Drained :=
  decidable_of_iff (session.updates = [] ∧ session.handler = .idle ∧ session.out = [] ∧
      session.connection = some ⟨true, [], []⟩)
    ⟨fun ⟨hupdates, hhandler, hout, hconnection⟩ => ⟨hupdates, hhandler, hout, hconnection⟩,
      fun ⟨hupdates, hhandler, hout, hconnection⟩ => ⟨hupdates, hhandler, hout, hconnection⟩⟩

end CollabSession

end Keeplin
