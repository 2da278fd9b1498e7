/-
What a single editor's edits come to.  Before the snapshot of a connection no
operation is on its way; after it the server is behind the mirror by exactly the
operations that are, in their order.  A run that keeps to the safe places for an
edit ends with the server and the stored body at the last save.
-/
import Keeplin.CollabSession

namespace Keeplin

namespace CollabSession

def opsOf (messages : List CollabClientMsg) : List LineOp :=
  messages.flatMap fun
    | .join => []
    | .op ops => ops

/-- The running updates: first those that have diffed, then those that have
not. -/
def UpdatesAre (updates : List LocalUpdate) (queued : List (List LineOp))
    (bodies : List String) : Prop :=
  ∃ back, updates = queued.map .diffed ++ back ∧
    back.map LocalUpdate.body? = bodies.map some

structure SavedBy (session : CollabSession) (queued : List (List LineOp))
    (bodies : List String) : Prop where
  body : session.body = session.lastSaved
  updates : UpdatesAre session.updates queued bodies
  checked : ∀ body ∈ bodies, checkBody body = .ok ()
  last : ∀ body ∈ bodies.getLast?, body = session.lastSaved

/-- A connection before the snapshot: not joined, or the join or its answer on
the way. -/
inductive Joining (server : NoteLines) : CollabConnection → Prop where
  | unjoined : Joining server ⟨false, [], []⟩
  | asked : Joining server ⟨true, [.join], []⟩
  | answered (snapshot : NoteLinesSnapshot) (hsnapshot : .fromSnapshot snapshot = server) :
      Joining server ⟨true, [], [.welcome snapshot]⟩

/-- Before the snapshot of the connection no operation is on its way. -/
structure Waiting (session : CollabSession) (bodies : List String) : Prop where
  handler : session.handler = .idle
  saved : session.SavedBy [] bodies
  out : noOps session.out
  connection : ∀ connection, session.connection = some connection →
    Joining session.server connection
  order : session.server.order.Nodup
  note : session.pendingPush = true ∧ checkBody session.body = .ok () ∨
    session.pendingPush = false ∧ bodies = [] ∧ session.server.materialize = session.lastSaved

/-- The mirror the client has, or is about to install. -/
inductive Mirrors (session : CollabSession) (target : NoteLines) :
    List (List LineOp) → List String → Prop where
  | reconcile (bodies : List String) (hhandler : session.handler = .reconcile target)
      (hbody : checkBody session.body = .ok ()) : Mirrors session target [] bodies
  | install (bodies : List String) (ops : List LineOp)
      (hhandler : session.handler = .install target ops)
      (hreads : bodies = [] → target.materialize = session.lastSaved) :
      Mirrors session target [] bodies
  | queueOps (bodies : List String) (ops : List LineOp)
      (hhandler : session.handler = .queueOps ops) (hmirror : session.mirror = some target)
      (hreads : bodies = [] → target.materialize = session.lastSaved) :
      Mirrors session target [] bodies
  | writeBody (hhandler : session.handler = .writeBody session.lastSaved)
      (hmirror : session.mirror = some target)
      (hreads : target.materialize = session.lastSaved) : Mirrors session target [] []
  | idle (queued : List (List LineOp)) (bodies : List String) (hhandler : session.handler = .idle)
      (hmirror : session.mirror = some target)
      (hreads : bodies = [] → target.materialize = session.lastSaved) :
      Mirrors session target queued bodies

/-- After the snapshot the server is behind the mirror by the operations on
their way, in their order. -/
structure Following (session : CollabSession) (connection : CollabConnection)
    (target : NoteLines) (queued : List (List LineOp)) (bodies : List String) : Prop where
  pending : session.pendingPush = false
  saved : session.SavedBy queued bodies
  connected : session.connection = some connection
  welcomed : connection.Welcomed
  ahead : session.server.applyAll (opsOf connection.toServer ++ opsOf session.out ++
    session.handler.ops ++ queued.flatten) = target
  order : target.order.Nodup
  mirrors : session.Mirrors target queued bodies

inductive Sound (session : CollabSession) : Prop where
  | waiting (bodies : List String) (hwaiting : session.Waiting bodies)
  | following (connection : CollabConnection) (target : NoteLines)
      (queued : List (List LineOp)) (bodies : List String)
      (hfollowing : session.Following connection target queued bodies)

section Messages

variable {messages others : List CollabClientMsg}

theorem opsOf_append (messages others : List CollabClientMsg) :
    opsOf (messages ++ others) = opsOf messages ++ opsOf others :=
  List.flatMap_append

theorem opsOf_of_noOps (hnone : noOps messages) : opsOf messages = [] := by
  rw [opsOf, List.flatMap_eq_nil_iff]
  intro message hmessage
  rw [hnone message hmessage]

end Messages

section Updates

variable {updates : List LocalUpdate} {queued : List (List LineOp)} {bodies : List String}
  {body : String} {ops : List LineOp} {update : Nat}

theorem UpdatesAre.eq_nil (hare : UpdatesAre [] queued bodies) : queued = [] ∧ bodies = [] := by
  obtain ⟨back, hsplit, hback⟩ := hare
  obtain ⟨hqueued, rfl⟩ := List.append_eq_nil_iff.mp hsplit.symm
  exact ⟨List.map_eq_nil_iff.mp hqueued, List.map_eq_nil_iff.mp hback.symm⟩

theorem UpdatesAre.save (hare : UpdatesAre updates queued bodies) (body : String) :
    UpdatesAre (updates ++ [.saved body]) queued (bodies ++ [body]) := by
  obtain ⟨back, rfl, hback⟩ := hare
  refine ⟨back ++ [.saved body], List.append_assoc _ _ _, ?_⟩
  rw [List.map_append, hback, List.map_append]
  rfl

/-- An update that has not diffed stands behind those that have. -/
theorem UpdatesAre.getElem?_back {found : LocalUpdate} {back : List LocalUpdate}
    (hfound : (queued.map LocalUpdate.diffed ++ back)[update]? = some found)
    (hbody : found.body?.isSome = true) :
    queued.length ≤ update ∧ back[update - queued.length]? = some found := by
  have hle : queued.length ≤ update := by
    by_contra hlt
    rw [List.getElem?_append_left (by simpa using hlt), List.getElem?_map] at hfound
    obtain ⟨ops, _, rfl⟩ := Option.map_eq_some_iff.mp hfound
    exact Bool.noConfusion hbody
  refine ⟨hle, ?_⟩
  rw [List.getElem?_append_right (by simpa using hle), List.length_map] at hfound
  exact hfound

theorem UpdatesAre.check (hare : UpdatesAre updates queued bodies)
    (hfound : updates[update]? = some (.saved body)) :
    UpdatesAre (updates.set update (.unsuppressed body)) queued bodies := by
  obtain ⟨back, rfl, hback⟩ := hare
  obtain ⟨hle, hplace⟩ := getElem?_back hfound rfl
  refine ⟨back.set (update - queued.length) (.unsuppressed body), ?_, ?_⟩
  · rw [List.set_append_right _ _ (by simpa using hle), List.length_map]
  · rw [List.map_set, ← hback]
    apply List.ext_getElem?
    intro position
    rw [List.getElem?_set]
    split
    · next heq =>
        subst heq
        rw [List.getElem?_map, hplace]
        split
        · rfl
        · next hlength =>
            rw [List.getElem?_eq_some_iff] at hplace
            rw [List.length_map] at hlength
            exact absurd hplace.1 hlength
    · rfl

/-- The update that pushes in order is the first that has not diffed. -/
theorem UpdatesAre.push (hare : UpdatesAre updates queued bodies)
    (hfound : updates[update]? = some (.unsuppressed body))
    (hearlier : ∀ earlier ∈ updates.take update, earlier.body? = none) :
    ∃ rest, bodies = body :: rest ∧ UpdatesAre (updates.eraseIdx update) queued rest ∧
      ∀ ops, UpdatesAre (updates.set update (.diffed ops)) (queued ++ [ops]) rest := by
  obtain ⟨back, rfl, hback⟩ := hare
  obtain ⟨hle, hplace⟩ := getElem?_back hfound rfl
  have hzero : update = queued.length := by
    by_contra hne
    cases back with
    | nil => simp at hplace
    | cons first later =>
        have hfirst := hearlier first (by
          rw [List.take_append, List.length_map,
            show update - queued.length = update - queued.length - 1 + 1 by omega]
          exact List.mem_append_right _ List.mem_cons_self)
        cases bodies with
        | nil => simp at hback
        | cons body' rest => simp [hfirst] at hback
  subst hzero
  rw [Nat.sub_self] at hplace
  cases back with
  | nil => simp at hplace
  | cons first later =>
      obtain rfl : first = .unsuppressed body := by simpa using hplace
      cases bodies with
      | nil => simp at hback
      | cons body' rest =>
          obtain ⟨heq, hlater⟩ := List.cons.inj hback
          obtain rfl : body = body' := Option.some.inj heq
          refine ⟨rest, rfl, ⟨later, ?_, hlater⟩, fun ops => ⟨later, ?_, hlater⟩⟩
          · rw [List.eraseIdx_append_of_length_le (by simp)]
            simp
          · rw [List.set_append_right _ _ (by simp)]
            simp

theorem UpdatesAre.queue (hare : UpdatesAre updates queued bodies)
    (hfound : updates[0]? = some (.diffed ops)) :
    ∃ rest, queued = ops :: rest ∧ UpdatesAre (updates.eraseIdx 0) rest bodies := by
  obtain ⟨back, rfl, hback⟩ := hare
  cases queued with
  | nil =>
      cases back with
      | nil => simp at hfound
      | cons first later =>
          obtain rfl : first = .diffed ops := by simpa using hfound
          cases bodies with
          | nil => simp at hback
          | cons body rest => simp [LocalUpdate.body?] at hback
  | cons first rest =>
      obtain rfl : first = ops := by simpa using hfound
      exact ⟨rest, rfl, back, rfl, hback⟩

end Updates

section Steps

open NoteLines

variable {device : String} {session next : CollabSession}

theorem Joining.not_welcomed {server : NoteLines} {connection : CollabConnection}
    (hjoining : Joining server connection) : ¬connection.Welcomed := by
  rintro ⟨hjoined, hserver, hclient⟩
  cases hjoining with
  | unjoined => cases hjoined
  | asked => exact hserver List.mem_cons_self
  | answered snapshot hsnapshot => cases hclient

theorem Sound.isSuppressed (hsound : session.Sound) : session.isSuppressed = false := by
  unfold CollabSession.isSuppressed
  cases hsound with
  | waiting bodies hwaiting => rw [hwaiting.handler]
  | following connection target queued bodies hfollowing =>
      cases hfollowing.mirrors with
      | reconcile bodies hhandler _ => rw [hhandler]
      | install bodies ops hhandler _ => rw [hhandler]
      | queueOps bodies ops hhandler _ _ => rw [hhandler]
      | writeBody hhandler _ _ => rw [hhandler]
      | idle queued bodies hhandler _ _ => rw [hhandler]

theorem SavedBy.save {queued : List (List LineOp)} {bodies : List String} {body : String}
    (hsaved : session.SavedBy queued bodies) (hbody : checkBody body = .ok ()) :
    { session with
      body
      lastSaved := body
      updates := session.updates ++ [LocalUpdate.saved body] }.SavedBy queued (bodies ++ [body]) where
  body := rfl
  updates := hsaved.updates.save body
  checked := fun other hother => by
    rcases List.mem_append.mp hother with hmem | hmem
    · exact hsaved.checked other hmem
    · exact List.mem_singleton.mp hmem ▸ hbody
  last := fun other hother => by simpa using hother.symm

theorem Sound.save {body : String} (hsound : session.Sound)
    (horderly : session.Orderly (.save body))
    (hstep : session.step device (.save body) = some next) : next.Sound := by
  simp only [step, hsound.isSuppressed, Bool.false_eq_true, false_or] at hstep
  split at hstep
  · next hbody =>
      obtain rfl := Option.some.inj hstep
      cases hsound with
      | waiting bodies hwaiting =>
          -- Of the places for a save only the pending note is left.
          have hpending : session.pendingPush = true := by
            rcases horderly with hpending | hhandler | ⟨_, connection, hconnection, hwelcomed⟩
            · exact hpending
            · rw [hwaiting.handler] at hhandler
              cases hhandler
            · exact absurd hwelcomed (hwaiting.connection connection hconnection).not_welcomed
          exact .waiting (bodies ++ [body])
            { handler := hwaiting.handler
              saved := hwaiting.saved.save hbody
              out := hwaiting.out
              connection := hwaiting.connection
              order := hwaiting.order
              note := Or.inl ⟨hpending, hbody⟩ }
      | following connection target queued bodies hfollowing =>
          refine .following connection target queued (bodies ++ [body])
            { pending := hfollowing.pending
              saved := hfollowing.saved.save hbody
              connected := hfollowing.connected
              welcomed := hfollowing.welcomed
              ahead := hfollowing.ahead
              order := hfollowing.order
              mirrors := ?_ }
          have hreads : bodies ++ [body] = [] → target.materialize = body := fun hnil =>
            absurd hnil (by simp)
          cases hfollowing.mirrors with
          | reconcile _ hhandler _ => exact .reconcile _ hhandler hbody
          | install _ ops hhandler _ => exact .install _ ops hhandler hreads
          | queueOps _ ops hhandler hmirror _ => exact .queueOps _ ops hhandler hmirror hreads
          | writeBody hhandler _ _ =>
              rcases horderly with hpending | hother | ⟨hother, _⟩
              · rw [hfollowing.pending] at hpending
                cases hpending
              all_goals
                rw [hhandler] at hother
                cases hother
          | idle _ _ hhandler hmirror _ => exact .idle _ _ hhandler hmirror hreads
  · cases hstep

theorem SavedBy.of_updates {queued queued' : List (List LineOp)} {bodies : List String}
    {updates : List LocalUpdate} {mirror : Option NoteLines} {out : List CollabClientMsg}
    (hsaved : session.SavedBy queued bodies) (hupdates : UpdatesAre updates queued' bodies) :
    { session with updates, mirror, out }.SavedBy queued' bodies where
  body := hsaved.body
  updates := hupdates
  checked := hsaved.checked
  last := hsaved.last

theorem Sound.checkSuppressed {update : Nat} (hsound : session.Sound)
    (hstep : session.step device (.checkSuppressed update) = some next) : next.Sound := by
  simp only [step, hsound.isSuppressed, Bool.false_eq_true, if_false] at hstep
  split at hstep
  · next body hfound =>
      obtain rfl := Option.some.inj hstep
      cases hsound with
      | waiting bodies hwaiting =>
          exact .waiting bodies
            { hwaiting with
              saved := hwaiting.saved.of_updates (hwaiting.saved.updates.check hfound) }
      | following connection target queued bodies hfollowing =>
          refine .following connection target queued bodies
            { hfollowing with
              saved := hfollowing.saved.of_updates (hfollowing.saved.updates.check hfound)
              mirrors := ?_ }
          cases hfollowing.mirrors with
          | reconcile _ hhandler hbody => exact .reconcile _ hhandler hbody
          | install _ ops hhandler hreads => exact .install _ ops hhandler hreads
          | queueOps _ ops hhandler hmirror hreads =>
              exact .queueOps _ ops hhandler hmirror hreads
          | writeBody hhandler hmirror hreads => exact .writeBody hhandler hmirror hreads
          | idle _ _ hhandler hmirror hreads => exact .idle _ _ hhandler hmirror hreads
  · cases hstep

/-- What is left after the first body has gone is saved as before. -/
theorem SavedBy.pop {queued queued' : List (List LineOp)} {body : String} {rest : List String}
    {updates : List LocalUpdate} {mirror : Option NoteLines}
    (hsaved : session.SavedBy queued (body :: rest))
    (hupdates : UpdatesAre updates queued' rest) :
    { session with updates, mirror }.SavedBy queued' rest where
  body := hsaved.body
  updates := hupdates
  checked := fun other hother => hsaved.checked other (List.mem_cons_of_mem _ hother)
  last := fun other hother => hsaved.last other (by
    cases rest with
    | nil => cases hother
    | cons second later => simpa using hother)

theorem Sound.push {update : Nat} {now : DateTime} {newId : Nat → Uuid}
    (hsound : session.Sound) (hfresh : session.Fresh (.push update now newId))
    (horderly : session.Orderly (.push update now newId))
    (hstep : session.step device (.push update now newId) = some next) : next.Sound := by
  obtain ⟨hidle, hearlier⟩ := horderly
  simp only [step] at hstep
  split at hstep
  · next body hfound =>
      cases hsound with
      | waiting bodies hwaiting =>
          obtain ⟨rest, rfl, herased, _⟩ := hwaiting.saved.updates.push hfound hearlier
          rcases hwaiting.note with ⟨hpending, hbody⟩ | ⟨_, hnil, _⟩
          · rw [if_pos hpending] at hstep
            obtain rfl := Option.some.inj hstep
            exact .waiting rest
              { handler := hwaiting.handler
                saved := hwaiting.saved.pop herased
                out := hwaiting.out
                connection := hwaiting.connection
                order := hwaiting.order
                note := Or.inl ⟨hpending, hbody⟩ }
          · cases hnil
      | following connection target queued bodies hfollowing =>
          obtain ⟨rest, rfl, herased, hset⟩ := hfollowing.saved.updates.push hfound hearlier
          have hmirror : session.mirror = some target := by
            cases hfollowing.mirrors with
            | reconcile _ hhandler _ =>
                rw [hidle] at hhandler
                cases hhandler
            | install _ ops hhandler _ =>
                rw [hidle] at hhandler
                cases hhandler
            | queueOps _ ops _ hmirror _ => exact hmirror
            | idle _ _ _ hmirror _ => exact hmirror
          have hbody := hfollowing.saved.checked body List.mem_cons_self
          have hahead := hfollowing.ahead
          simp only [Fresh, hmirror, Option.getD_some] at hfresh
          rw [hfollowing.pending, if_neg Bool.false_ne_true, pushLocalEdit, hmirror,
            Option.getD_some, diffBody_eq hbody] at hstep
          -- The mirror reads the body that was pushed, the last one if none is left.
          have hreads : rest = [] →
              (target.applyAll (target.diffOps device now newId (newLines body))).materialize =
                session.lastSaved := by
            intro hnil
            rw [materialize_applyAll_diffOps hfollowing.order hfresh]
            exact hfollowing.saved.last body (by rw [hnil]; rfl)
          have horder := nodup_applyAll_diffOps device now hfollowing.order hfresh
            (newLines body)
          generalize target.diffOps device now newId (newLines body) = ops at hstep hreads horder
          cases ops with
          | nil =>
              obtain rfl := Option.some.inj hstep
              exact .following connection target queued rest
                { pending := hfollowing.pending
                  saved := hfollowing.saved.pop herased
                  connected := hfollowing.connected
                  welcomed := hfollowing.welcomed
                  ahead := hahead
                  order := hfollowing.order
                  mirrors := .idle queued rest hidle rfl hreads }
          | cons op ops =>
              obtain rfl := Option.some.inj hstep
              refine .following connection (target.applyAll (op :: ops)) (queued ++ [op :: ops])
                rest
                { pending := hfollowing.pending
                  saved := hfollowing.saved.pop (hset _)
                  connected := hfollowing.connected
                  welcomed := hfollowing.welcomed
                  ahead := ?_
                  order := horder
                  mirrors := .idle _ rest hidle rfl hreads }
              rw [List.flatten_append, List.flatten_singleton, ← List.append_assoc,
                applyAll_append]
              exact congrArg (fun lines => applyAll lines (op :: ops)) hahead
  · cases hstep

theorem Sound.queue {update : Nat} (hsound : session.Sound)
    (horderly : session.Orderly (.queue update))
    (hstep : session.step device (.queue update) = some next) : next.Sound := by
  obtain rfl : update = 0 := horderly
  simp only [step] at hstep
  split at hstep
  · next ops hfound =>
      obtain rfl := Option.some.inj hstep
      cases hsound with
      | waiting bodies hwaiting =>
          obtain ⟨rest, hnil, _⟩ := hwaiting.saved.updates.queue hfound
          cases hnil
      | following connection target queued bodies hfollowing =>
          obtain ⟨rest, rfl, herased⟩ := hfollowing.saved.updates.queue hfound
          cases hfollowing.mirrors with
          | idle _ _ hhandler hmirror hreads =>
              refine .following connection target rest bodies
                { pending := hfollowing.pending
                  saved := hfollowing.saved.of_updates herased
                  connected := hfollowing.connected
                  welcomed := hfollowing.welcomed
                  ahead := ?_
                  order := hfollowing.order
                  mirrors := .idle rest bodies hhandler hmirror hreads }
              have hahead := hfollowing.ahead
              simp only [hhandler, MessageHandler.ops, List.append_nil] at hahead ⊢
              rw [opsOf_append]
              simpa [opsOf, List.append_assoc] using hahead
  · cases hstep

theorem Mirrors.idle_of_handler {target : NoteLines} {queued : List (List LineOp)}
    {bodies : List String} (hmirrors : session.Mirrors target queued bodies)
    (hidle : session.handler = .idle) :
    session.mirror = some target ∧ (bodies = [] → target.materialize = session.lastSaved) := by
  cases hmirrors with
  | reconcile _ hhandler _ =>
      rw [hidle] at hhandler
      cases hhandler
  | install _ ops hhandler _ =>
      rw [hidle] at hhandler
      cases hhandler
  | queueOps _ ops hhandler _ _ =>
      rw [hidle] at hhandler
      cases hhandler
  | writeBody hhandler _ _ =>
      rw [hidle] at hhandler
      cases hhandler
  | idle _ _ _ hmirror hreads => exact ⟨hmirror, hreads⟩

theorem Sound.queueJoin (hsound : session.Sound)
    (hstep : session.step device .queueJoin = some next) : next.Sound := by
  simp only [step] at hstep
  split at hstep
  · obtain rfl := Option.some.inj hstep
    cases hsound with
    | waiting bodies hwaiting =>
        refine .waiting bodies
          { handler := hwaiting.handler
            saved := ⟨hwaiting.saved.body, hwaiting.saved.updates, hwaiting.saved.checked,
              hwaiting.saved.last⟩
            out := fun message hmessage => ?_
            connection := hwaiting.connection
            order := hwaiting.order
            note := hwaiting.note }
        rcases List.mem_append.mp hmessage with hmem | hmem
        · exact hwaiting.out message hmem
        · exact List.mem_singleton.mp hmem
    | following connection target queued bodies hfollowing =>
        refine .following connection target queued bodies
          { pending := hfollowing.pending
            saved := ⟨hfollowing.saved.body, hfollowing.saved.updates, hfollowing.saved.checked,
              hfollowing.saved.last⟩
            connected := hfollowing.connected
            welcomed := hfollowing.welcomed
            ahead := ?_
            order := hfollowing.order
            mirrors := ?_ }
        · have hjoin : opsOf (session.out ++ [.join]) = opsOf session.out := by
            rw [opsOf_append]
            exact List.append_nil _
          rw [hjoin]
          exact hfollowing.ahead
        · cases hfollowing.mirrors with
          | reconcile _ hhandler hbody => exact .reconcile _ hhandler hbody
          | install _ ops hhandler hreads => exact .install _ ops hhandler hreads
          | queueOps _ ops hhandler hmirror hreads =>
              exact .queueOps _ ops hhandler hmirror hreads
          | writeBody hhandler hmirror hreads => exact .writeBody hhandler hmirror hreads
          | idle _ _ hhandler hmirror hreads => exact .idle _ _ hhandler hmirror hreads
  · cases hstep

theorem Waiting.with_connection {bodies : List String} {out : List CollabClientMsg}
    {connection : Option CollabConnection} (hwaiting : session.Waiting bodies)
    (hout : noOps out)
    (hconnection : ∀ found, connection = some found → Joining session.server found) :
    { session with out, connection }.Waiting bodies where
  handler := hwaiting.handler
  saved := ⟨hwaiting.saved.body, hwaiting.saved.updates, hwaiting.saved.checked,
    hwaiting.saved.last⟩
  out := hout
  connection := hconnection
  order := hwaiting.order
  note := hwaiting.note

theorem Sound.connect (hsound : session.Sound)
    (hstep : session.step device .connect = some next) : next.Sound := by
  simp only [step] at hstep
  split at hstep
  · next hclosed =>
      obtain rfl := Option.some.inj hstep
      cases hsound with
      | waiting bodies hwaiting =>
          refine .waiting bodies (hwaiting.with_connection hwaiting.out fun found hfound => ?_)
          obtain rfl := Option.some.inj hfound
          exact .asked
      | following connection target queued bodies hfollowing =>
          rw [hfollowing.connected] at hclosed
          cases hclosed.2
  · cases hstep

theorem Sound.rediscover (hsound : session.Sound)
    (hstep : session.step device .rediscover = some next) : next.Sound := by
  simp only [step] at hstep
  split at hstep
  · next connection hconnection =>
      split at hstep
      · next hopen =>
          obtain rfl := Option.some.inj hstep
          cases hsound with
          | waiting bodies hwaiting =>
              refine .waiting bodies (hwaiting.with_connection hwaiting.out fun found hfound => ?_)
              obtain rfl := Option.some.inj hfound
              have hjoining := hwaiting.connection connection hconnection
              cases hjoining with
              | unjoined => exact .asked
              | asked => cases hopen.2
              | answered snapshot hsnapshot => cases hopen.2
          | following other target queued bodies hfollowing =>
              obtain rfl := Option.some.inj (hconnection.symm.trans hfollowing.connected)
              rw [hfollowing.welcomed.1] at hopen
              cases hopen.2
      · cases hstep
  · cases hstep

theorem Following.with_messages {connection other : CollabConnection} {target server : NoteLines}
    {queued : List (List LineOp)} {bodies : List String} (out : List CollabClientMsg)
    (hfollowing : session.Following connection target queued bodies)
    (hwelcomed : other.Welcomed)
    (hahead : server.applyAll (opsOf other.toServer ++ opsOf out ++ session.handler.ops ++
      queued.flatten) = target) :
    { session with out, connection := some other, server }.Following other target queued
      bodies where
  pending := hfollowing.pending
  saved := ⟨hfollowing.saved.body, hfollowing.saved.updates, hfollowing.saved.checked,
    hfollowing.saved.last⟩
  connected := rfl
  welcomed := hwelcomed
  ahead := hahead
  order := hfollowing.order
  mirrors := by
    cases hfollowing.mirrors with
    | reconcile _ hhandler hbody => exact .reconcile _ hhandler hbody
    | install _ ops hhandler hreads => exact .install _ ops hhandler hreads
    | queueOps _ ops hhandler hmirror hreads => exact .queueOps _ ops hhandler hmirror hreads
    | writeBody hhandler hmirror hreads => exact .writeBody hhandler hmirror hreads
    | idle _ _ hhandler hmirror hreads => exact .idle _ _ hhandler hmirror hreads

theorem Sound.send (hsound : session.Sound)
    (hstep : session.step device .send = some next) : next.Sound := by
  simp only [step] at hstep
  split at hstep
  · next hidle =>
      obtain ⟨connection, hconnection, hstep⟩ := Option.bind_eq_some_iff.mp hstep
      cases hsound with
      | waiting bodies hwaiting =>
          have hjoining := hwaiting.connection connection hconnection
          unfold sendQueued at hstep
          split at hstep
          · cases hstep
          · next rest hout =>
              have hrest : noOps rest := fun message hmessage =>
                hwaiting.out message (hout ▸ List.mem_cons_of_mem _ hmessage)
              split at hstep
              · obtain rfl := Option.some.inj hstep
                exact .waiting bodies (hwaiting.with_connection hrest hwaiting.connection)
              · next hjoined =>
                  obtain rfl := Option.some.inj hstep
                  refine .waiting bodies (hwaiting.with_connection hrest fun found hfound => ?_)
                  obtain rfl := Option.some.inj hfound
                  cases hjoining with
                  | unjoined => exact .asked
                  | asked => exact absurd rfl hjoined
                  | answered snapshot hsnapshot => exact absurd rfl hjoined
          · next ops rest hout =>
              have hop := hwaiting.out (.op ops) (hout ▸ List.mem_cons_self)
              cases hop
      | following other target queued bodies hfollowing =>
          obtain rfl := Option.some.inj (hconnection.symm.trans hfollowing.connected)
          obtain ⟨hjoined, hnoJoin, hclient⟩ := hfollowing.welcomed
          have hahead := hfollowing.ahead
          unfold sendQueued at hstep
          split at hstep
          · cases hstep
          · next rest hout =>
              rw [if_pos hjoined] at hstep
              obtain rfl := Option.some.inj hstep
              rw [hout] at hahead
              have hsent := hfollowing.with_messages rest hfollowing.welcomed hahead
              rw [← hconnection] at hsent
              exact .following connection target queued bodies hsent
          · next ops rest hout =>
              obtain rfl := Option.some.inj hstep
              refine .following _ target queued bodies (hfollowing.with_messages _
                ⟨hjoined, fun hmem => ?_, hclient⟩ ?_)
              · rcases List.mem_append.mp hmem with hold | hnew
                · exact hnoJoin hold
                · cases List.mem_singleton.mp hnew
              · rw [hout] at hahead
                simpa [opsOf, List.append_assoc] using hahead
  · cases hstep

theorem Sound.serve {snapshot : NoteLinesSnapshot} (hsound : session.Sound)
    (hstep : session.step device (.serve snapshot) = some next) : next.Sound := by
  obtain ⟨connection, hconnection, hstep⟩ := Option.bind_eq_some_iff.mp hstep
  cases hsound with
  | waiting bodies hwaiting =>
      have hjoining := hwaiting.connection connection hconnection
      cases hjoining with
      | unjoined => cases hstep
      | asked =>
          simp only [serveNext] at hstep
          split at hstep
          · next hsnapshot =>
              obtain rfl := Option.some.inj hstep
              refine .waiting bodies (hwaiting.with_connection hwaiting.out fun found hfound => ?_)
              obtain rfl := Option.some.inj hfound
              exact .answered snapshot hsnapshot
          · cases hstep
      | answered other hother => cases hstep
  | following other target queued bodies hfollowing =>
      obtain rfl := Option.some.inj (hconnection.symm.trans hfollowing.connected)
      obtain ⟨hjoined, hnoJoin, hclient⟩ := hfollowing.welcomed
      unfold serveNext at hstep
      split at hstep
      · cases hstep
      · next ops rest hserver =>
          obtain rfl := Option.some.inj hstep
          refine .following _ target queued bodies (hfollowing.with_messages _
            ⟨hjoined, fun hmem => hnoJoin (hserver ▸ List.mem_cons_of_mem _ hmem), hclient⟩ ?_)
          have hahead := hfollowing.ahead
          rw [hserver] at hahead
          rw [← applyAll_append]
          simpa [opsOf, List.append_assoc] using hahead
      · next rest hserver => exact absurd (hserver ▸ List.mem_cons_self) hnoJoin

theorem Sound.drop (hsound : session.Sound) (horderly : session.Orderly .drop)
    (hstep : session.step device .drop = some next) : next.Sound := by
  simp only [step] at hstep
  split at hstep
  · next hidle =>
      obtain rfl := Option.some.inj hstep
      cases hsound with
      | waiting bodies hwaiting =>
          exact .waiting bodies (hwaiting.with_connection hwaiting.out (by simp))
      | following connection target queued bodies hfollowing =>
          obtain ⟨hout, hserver, hupdates⟩ := horderly
          have hnone : session.updates = [] := hupdates.resolve_left (by
            rw [hfollowing.pending]
            exact Bool.false_ne_true)
          obtain ⟨rfl, rfl⟩ := (hnone ▸ hfollowing.saved.updates).eq_nil
          have hahead := hfollowing.ahead
          rw [hidle, opsOf_of_noOps hout, opsOf_of_noOps (hserver connection
            hfollowing.connected)] at hahead
          obtain rfl : session.server = target := hahead
          obtain ⟨_, hreads⟩ := hfollowing.mirrors.idle_of_handler hidle
          exact .waiting []
            { handler := hidle
              saved := ⟨hfollowing.saved.body, hfollowing.saved.updates,
                hfollowing.saved.checked, hfollowing.saved.last⟩
              out := hout
              connection := by simp
              order := hfollowing.order
              note := Or.inr ⟨hfollowing.pending, rfl, hreads rfl⟩ }
  · cases hstep

theorem Sound.receive (hsound : session.Sound)
    (hstep : session.step device .receive = some next) : next.Sound := by
  simp only [step] at hstep
  split at hstep
  · next hidle =>
      obtain ⟨connection, hconnection, hstep⟩ := Option.bind_eq_some_iff.mp hstep
      cases hsound with
      | waiting bodies hwaiting =>
          have hjoining := hwaiting.connection connection hconnection
          cases hjoining with
          | unjoined => cases hstep
          | asked => cases hstep
          | answered snapshot hsnapshot =>
              have hahead : session.server.applyAll (opsOf [] ++ opsOf session.out ++ [] ++
                  ([] : List (List LineOp)).flatten) = session.server := by
                rw [opsOf_of_noOps hwaiting.out]
                rfl
              simp only [receiveNext, hsnapshot] at hstep
              rcases hwaiting.note with ⟨hpending, hbody⟩ | ⟨hpending, rfl, htext⟩
              · rw [if_pos hpending] at hstep
                obtain rfl := Option.some.inj hstep
                exact .following _ session.server [] bodies
                  { pending := rfl
                    saved := ⟨hwaiting.saved.body, hwaiting.saved.updates,
                      hwaiting.saved.checked, hwaiting.saved.last⟩
                    connected := rfl
                    welcomed := ⟨rfl, List.not_mem_nil, rfl⟩
                    ahead := hahead
                    order := hwaiting.order
                    mirrors := .reconcile bodies rfl hbody }
              · rw [if_neg (by simp [hpending]), htext] at hstep
                obtain rfl := Option.some.inj hstep
                exact .following _ session.server [] []
                  { pending := hpending
                    saved := ⟨hwaiting.saved.body, hwaiting.saved.updates,
                      hwaiting.saved.checked, hwaiting.saved.last⟩
                    connected := rfl
                    welcomed := ⟨rfl, List.not_mem_nil, rfl⟩
                    ahead := hahead
                    order := hwaiting.order
                    mirrors := .writeBody rfl rfl htext }
      | following other target queued bodies hfollowing =>
          obtain rfl := Option.some.inj (hconnection.symm.trans hfollowing.connected)
          obtain ⟨_, _, hclient⟩ := hfollowing.welcomed
          simp only [receiveNext, hclient] at hstep
          cases hstep
  · cases hstep

theorem Following.with_handler {connection : CollabConnection} {target other : NoteLines}
    {queued : List (List LineOp)} {bodies : List String} {out : List CollabClientMsg}
    {mirror : Option NoteLines} {handler : MessageHandler}
    (hfollowing : session.Following connection target queued bodies)
    (horder : other.order.Nodup)
    (hahead : session.server.applyAll (opsOf connection.toServer ++ opsOf out ++ handler.ops ++
      queued.flatten) = other)
    (hmirrors : { session with out, mirror, handler }.Mirrors other queued bodies) :
    { session with out, mirror, handler }.Following connection other queued bodies where
  pending := hfollowing.pending
  saved := ⟨hfollowing.saved.body, hfollowing.saved.updates, hfollowing.saved.checked,
    hfollowing.saved.last⟩
  connected := hfollowing.connected
  welcomed := hfollowing.welcomed
  ahead := hahead
  order := horder
  mirrors := hmirrors

theorem Sound.handle {now : DateTime} {newId : Nat → Uuid} (hsound : session.Sound)
    (hfresh : session.Fresh (.handle now newId))
    (hstep : session.step device (.handle now newId) = some next) : next.Sound := by
  simp only [step] at hstep
  cases hsound with
  | waiting bodies hwaiting =>
      simp only [handleNext, hwaiting.handler] at hstep
      cases hstep
  | following connection target queued bodies hfollowing =>
      have hahead := hfollowing.ahead
      cases hfollowing.mirrors with
      | reconcile _ hhandler hbody =>
          have hids := hfresh target hhandler
          simp only [handleNext, hhandler, diffBody_eq hbody] at hstep
          obtain rfl := Option.some.inj hstep
          refine .following connection _ [] bodies (hfollowing.with_handler
            (nodup_applyAll_diffOps _ _ hfollowing.order hids (newLines session.body)) ?_
            (.install bodies _ rfl fun hnil => ?_))
          · rw [hhandler] at hahead
            simp only [MessageHandler.ops, List.append_nil, List.flatten_nil] at hahead ⊢
            rw [applyAll_append, hahead]
          · exact (materialize_applyAll_diffOps hfollowing.order hids session.body).trans
              hfollowing.saved.body
      | install _ ops hhandler hreads =>
          rw [hhandler] at hahead
          cases ops with
          | nil =>
              simp only [handleNext, hhandler] at hstep
              obtain rfl := Option.some.inj hstep
              exact .following connection target [] bodies (hfollowing.with_handler
                hfollowing.order hahead (.idle [] bodies rfl rfl hreads))
          | cons op ops =>
              simp only [handleNext, hhandler] at hstep
              obtain rfl := Option.some.inj hstep
              exact .following connection target [] bodies (hfollowing.with_handler
                hfollowing.order hahead (.queueOps bodies _ rfl rfl hreads))
      | queueOps _ ops hhandler hmirror hreads =>
          rw [hhandler] at hahead
          simp only [handleNext, hhandler] at hstep
          obtain rfl := Option.some.inj hstep
          refine .following connection target [] bodies (hfollowing.with_handler
            hfollowing.order ?_ (.idle [] bodies rfl hmirror hreads))
          simpa [opsOf, MessageHandler.ops] using hahead
      | writeBody hhandler hmirror hreads =>
          rw [hhandler] at hahead
          simp only [handleNext, hhandler] at hstep
          rw [if_pos hfollowing.saved.body] at hstep
          obtain rfl := Option.some.inj hstep
          exact .following connection target [] [] (hfollowing.with_handler
            hfollowing.order hahead (.idle [] [] rfl hmirror fun _ => hreads))
      | idle _ _ hhandler _ _ =>
          simp only [handleNext, hhandler] at hstep
          cases hstep

end Steps

section Run

variable {device : String} {session start final : CollabSession} {events : List CollabEvent}

/-- A step at a safe place for an edit, with new ids. -/
def Safe (session : CollabSession) (event : CollabEvent) : Prop :=
  session.Fresh event ∧ session.Orderly event

theorem Sound.step {event : CollabEvent} {next : CollabSession} (hsound : session.Sound)
    (hsafe : session.Safe event) (hstep : session.step device event = some next) :
    next.Sound := by
  obtain ⟨hfresh, horderly⟩ := hsafe
  cases event with
  | save body => exact hsound.save horderly hstep
  | checkSuppressed update => exact hsound.checkSuppressed hstep
  | push update now newId => exact hsound.push hfresh horderly hstep
  | queue update => exact hsound.queue horderly hstep
  | queueJoin => exact hsound.queueJoin hstep
  | connect => exact hsound.connect hstep
  | rediscover => exact hsound.rediscover hstep
  | send => exact hsound.send hstep
  | serve snapshot => exact hsound.serve hstep
  | drop => exact hsound.drop horderly hstep
  | receive => exact hsound.receive hstep
  | handle now newId => exact hsound.handle hfresh hstep

theorem Begun.sound (hbegun : session.Begun) : session.Sound := by
  refine .waiting []
    { handler := hbegun.handler
      saved := ⟨hbegun.saved, ⟨[], hbegun.updates, rfl⟩, by simp, by simp⟩
      out := by simp [hbegun.out, noOps]
      connection := fun connection hconnection => ?_
      order := hbegun.order
      note := ?_ }
  · rw [hbegun.connection connection hconnection]
    exact .unjoined
  · rcases hbegun.note with hpending | ⟨hpending, htext⟩
    · exact Or.inl hpending
    · exact Or.inr ⟨hpending, rfl, htext⟩

theorem Sound.drained (hsound : session.Sound) (hdrained : session.Drained) :
    session.server.materialize = session.lastSaved ∧ session.body = session.lastSaved := by
  cases hsound with
  | waiting bodies hwaiting =>
      exact absurd ⟨rfl, List.not_mem_nil, rfl⟩
        (hwaiting.connection _ hdrained.connection).not_welcomed
  | following connection target queued bodies hfollowing =>
      obtain rfl := Option.some.inj (hdrained.connection.symm.trans hfollowing.connected)
      obtain ⟨rfl, rfl⟩ := (hdrained.updates ▸ hfollowing.saved.updates).eq_nil
      obtain ⟨_, hreads⟩ := hfollowing.mirrors.idle_of_handler hdrained.handler
      have hahead := hfollowing.ahead
      rw [hdrained.handler, hdrained.out] at hahead
      obtain rfl : session.server = target := hahead
      exact ⟨hreads rfl, hfollowing.saved.body⟩

/-- A run whose edits keep to the safe places ends, once everything has drained,
with the last save on both sides. -/
theorem run_keeps_lastSaved (device : String) (start final : CollabSession)
    (events : List CollabEvent) (hbegun : start.Begun)
    (hsafe : MeetsAll (CollabSession.step device) Safe start events)
    (hrun : runAll (CollabSession.step device) start events = some final)
    (hdrained : final.Drained) :
    final.server.materialize = final.lastSaved ∧ final.body = final.lastSaved :=
  (runAll_invariant_of_meetsAll (CollabSession.step device)
    (fun _ _ _ hsound hmeets hstep => Sound.step hsound hmeets hstep)
    hbegun.sound hsafe hrun).drained hdrained

end Run

namespace CollabWitness

def newId (position : Nat) : Uuid :=
  position + 5

/-- The lines a step diffs have ids below those of `newId`. -/
def Small (session : CollabSession) : CollabEvent → Prop
  | .push _ _ _ => ∀ id ∈ (session.mirror.getD .empty).order, id < 5
  | .handle _ _ =>
      match session.handler with
      | .reconcile lines => ∀ id ∈ lines.order, id < 5
      | _ => True
  | _ => True

instance (session : CollabSession) (event : CollabEvent) : Decidable (Small session event) := by
  cases event with
  | push update now supply => exact List.decidableBAll _ _
  | handle now supply =>
      unfold Small
      cases session.handler <;> infer_instance
  | _ => exact instDecidableTrue

/-- The event makes its ids with `newId`. -/
def Supplied : CollabEvent → Prop
  | .push _ _ supply | .handle _ supply => supply = newId
  | _ => True

theorem freshIds_newId {lines : NoteLines} (hsmall : ∀ id ∈ lines.order, id < 5) :
    lines.FreshIds newId where
  injective := fun first second heq => Nat.add_right_cancel heq
  order := fun position hmem => by
    have hlt : position + 5 < 5 := hsmall _ hmem
    omega

theorem fresh_of_small {session : CollabSession} {event : CollabEvent}
    (hsmall : Small session event)
    (hsupplied : Supplied event) : session.Fresh event := by
  cases event with
  | push update now supply =>
      obtain rfl : supply = newId := hsupplied
      exact freshIds_newId hsmall
  | handle now supply =>
      obtain rfl : supply = newId := hsupplied
      intro lines hhandler
      simp only [Small, hhandler] at hsmall
      exact freshIds_newId hsmall
  | _ => trivial

def snapshot (order : List Uuid) (lines : List LineSnapshot) : NoteLinesSnapshot :=
  { noteId := 7, order, updatedAt := 1, vv := ∅, lastWriter := "", lines }

/-- A note with one line, as the server has it. -/
def oneLine : NoteLinesSnapshot :=
  snapshot [1] [{
    id := 1, content := "old", createdAt := 1, updatedAt := 1, deletedAt := none, vv := ∅
    lastWriter := "A" }]

/-- The daemon starts with the note in its store. -/
def cached : CollabSession where
  body := "old"
  mirror := none
  pendingPush := false
  creating := false
  out := []
  updates := []
  handler := .idle
  connection := none
  server := .fromSnapshot oneLine
  lastSaved := "old"

theorem cached_begun : cached.Begun where
  handler := rfl
  updates := rfl
  out := rfl
  saved := rfl
  order := by decide
  connection := by simp [cached]
  note := by decide

/-- The note is edited before the client is connected. -/
def offlineEdit : List CollabEvent :=
  [.save "new", .checkSuppressed 0, .push 0 2 newId, .queue 0, .connect, .serve oneLine, .send,
    .serve oneLine, .receive, .handle 3 newId, .handle 3 newId, .handle 3 newId]

/-- The server gets the line a second time, and the client loses the edit. -/
theorem offlineEdit_diverges :
    cached.Begun ∧ MeetsAll (CollabSession.step "A") Fresh cached offlineEdit ∧
      ∃ final, runAll (CollabSession.step "A") cached offlineEdit = some final ∧
        final.Drained ∧ final.server.materialize = "new\nold" ∧ final.body = "old" ∧
        final.lastSaved = "new" := by
  refine ⟨cached_begun, ?_, ?_⟩
  · have hsmall : MeetsAll (CollabSession.step "A") Small cached offlineEdit := by decide
    refine hsmall.mono fun session event hevent hsmall => fresh_of_small hsmall ?_
    simp only [offlineEdit, List.mem_cons, List.not_mem_nil, or_false] at hevent
    rcases hevent with rfl | rfl | rfl | rfl | rfl | rfl | rfl | rfl | rfl | rfl | rfl | rfl <;>
      trivial
  · have hfinal : (runAll (CollabSession.step "A") cached offlineEdit).any (fun final =>
        decide (final.Drained ∧ final.server.materialize = "new\nold" ∧ final.body = "old" ∧
          final.lastSaved = "new")) = true := by
      decide
    obtain ⟨final, hrun, hends⟩ := Option.any_eq_true _ _ |>.mp hfinal
    exact ⟨final, hrun, of_decide_eq_true hends⟩

/-- A note that has just been made. -/
def created : CollabSession :=
  { cached with
    body := "text"
    pendingPush := true
    creating := true
    server := .fromSnapshot (snapshot [] [])
    lastSaved := "text" }

theorem created_begun : created.Begun where
  handler := rfl
  updates := rfl
  out := rfl
  saved := rfl
  order := by decide
  connection := by simp [created, cached]
  note := by decide

/-- Its body is pushed with the first snapshot. -/
def creation : List CollabEvent :=
  [.queueJoin, .connect, .send, .serve (snapshot [] []), .receive, .handle 3 newId,
    .handle 3 newId, .handle 3 newId, .send, .serve (snapshot [] [])]

theorem run_keeps_lastSaved_creation :
    ∃ final, runAll (CollabSession.step "A") created creation = some final ∧
      final.server.materialize = final.lastSaved ∧ final.body = final.lastSaved := by
  have hsafe : MeetsAll (CollabSession.step "A") Safe created creation := by
    have hsmall : MeetsAll (CollabSession.step "A")
        (fun session event => Small session event ∧ session.Orderly event) created creation := by
      decide
    refine hsmall.mono fun session event hevent hsmall =>
      ⟨fresh_of_small hsmall.1 ?_, hsmall.2⟩
    simp only [creation, List.mem_cons, List.not_mem_nil, or_false] at hevent
    rcases hevent with rfl | rfl | rfl | rfl | rfl | rfl | rfl | rfl | rfl | rfl <;>
      trivial
  have hdrains : (runAll (CollabSession.step "A") created creation).any (fun final =>
      decide final.Drained) = true := by
    decide
  obtain ⟨final, hrun, hdrained⟩ := Option.any_eq_true _ _ |>.mp hdrains
  exact ⟨final, hrun, run_keeps_lastSaved "A" created final creation created_begun hsafe hrun
    (of_decide_eq_true hdrained)⟩

end CollabWitness

end CollabSession

end Keeplin
