/-
The histories that a sync server may serve.  A database finds out once whether its server
serves them, from the handshake at its opening or later, and falls back to its journal
where it does not.  Calls may be under way at once.
-/
import Keeplin.NoteHistory
import Keeplin.ChangeFrames
import Keeplin.TextCuts
import Keeplin.LabelledRun

namespace Keeplin

open Json

/-- What comes of a request: no answer, or one with a status and a body, which may not be
JSON. -/
inductive HttpReply where
  | unreachable
  | answered (status : Nat) (body : Option Value)

namespace HttpReply

/-- The body of an answer of success. -/
def success : HttpReply → Option Value
  | .answered status body => if 200 ≤ status ∧ status < 300 then body else none
  | .unreachable => none

def notFound : HttpReply → Bool
  | .answered status _ => status = 404
  | .unreachable => false

end HttpReply

inductive CapabilityCache where
  | unknown
  | unavailable
  | known (capabilities : List String)
deriving DecidableEq

/-- A request: its address, the token it carries, and the position of the call that makes it;
the opening makes one of no call. -/
structure HttpRequest where
  url : List Char
  token : Option String
  caller : Option Nat

/-- The request asks for a history, for the call at the position. -/
def HttpRequest.isHistoryOf (position : Nat) (request : HttpRequest) : Bool :=
  request.token.isSome && request.caller = some position

inductive HistoryKind where
  | note
  | notebook
deriving DecidableEq

namespace HistoryKind

abbrev Entity : HistoryKind → Type
  | .note => Note
  | .notebook => Notebook

def name : HistoryKind → List Char
  | .note => ['n', 'o', 't', 'e']
  | .notebook => ['n', 'o', 't', 'e', 'b', 'o', 'o', 'k']

def version? : (kind : HistoryKind) → Uuid → Change → Option (Option kind.Entity)
  | .note => Change.noteVersion?
  | .notebook => Change.notebookVersion?

def codec (forms : TextForms) : (kind : HistoryKind) → Codec kind.Entity
  | .note => forms.note
  | .notebook => forms.notebook

end HistoryKind

/-- How far a call has come.  A result is the server's, or the journal's. -/
inductive HistoryStage (T : Type) where
  | entered
  | asking
  | requesting
  | waiting
  | falling
  | served (versions : List (EntityVersion T))
  | told (versions : List (EntityVersion T))

namespace HistoryStage

variable {T : Type}

/-- The call has not made its request, though it may. -/
def early : HistoryStage T → Bool
  | .entered | .asking | .requesting => true
  | _ => false

/-- The call is past the look at the flag, and has not made its request. -/
def passed : HistoryStage T → Bool
  | .asking | .requesting => true
  | _ => false

/-- The server serves histories, for all the call knows. -/
def trusting : HistoryStage T → Bool
  | .requesting | .waiting => true
  | _ => false

/-- The call has made its request, and taken nothing else for an answer. -/
def requested : HistoryStage T → Bool
  | .waiting | .served _ => true
  | _ => false

def finished : HistoryStage T → Bool
  | .served _ | .told _ => true
  | _ => false

end HistoryStage

structure HistoryCall where
  kind : HistoryKind
  id : Uuid
  limit : Nat
  stage : HistoryStage kind.Entity

structure HistoryWorld where
  db : Db
  serverCapabilities : CapabilityCache
  historyUnsupported : Bool
  requests : List HttpRequest
  calls : List HistoryCall

inductive HistoryStep where
  | change (db : Db)
  | call (kind : HistoryKind) (id : Uuid) (limit : Nat)
  | enter (position : Nat)
  | ask (position : Nat) (reply : HttpReply)
  | request (position : Nat)
  | answer (position : Nat) (reply : HttpReply)
  | tell (position : Nat)

def dropSlashes (text : List Char) : List Char :=
  (text.reverse.dropWhile fun c => c = '/').reverse

def stripSuffix (back text : List Char) : Option (List Char) :=
  (stripPrefix back.reverse text.reverse).map List.reverse

def httpBaseOf (serverUrl : String) : Option (List Char) :=
  let secure := stripPrefix ['w', 's', 's', ':', '/', '/'] serverUrl.toList
  let plain := stripPrefix ['w', 's', ':', '/', '/'] serverUrl.toList
  let rest (text : List Char) : List Char :=
    dropSlashes ((stripSuffix ['/', 'a', 'p', 'i', '/', 's', 'y', 'n', 'c'] text).getD text)
  match secure with
  | some text => some (['h', 't', 't', 'p', 's', ':', '/', '/'] ++ rest text)
  | none => plain.map fun text => ['h', 't', 't', 'p', ':', '/', '/'] ++ rest text

def versionUrl (base : List Char) : List Char :=
  base ++ ['/', 'v', 'e', 'r', 's', 'i', 'o', 'n']

def historyUrl (forms : TextForms) (base : List Char) (kind : HistoryKind) (id : Uuid)
    (limit : Nat) : List Char :=
  base ++ ['/', 'a', 'p', 'i', '/'] ++ kind.name ++ ['s', '/'] ++ (forms.uuid id).toList ++
    ['/', 'h', 'i', 's', 't', 'o', 'r', 'y', '?', 'l', 'i', 'm', 'i', 't', '='] ++
    (toString (historyCap limit)).toList

def PROTOCOL_VERSION : Nat := 1

structure ServerInfo where
  name : String
  version : String
  protocolVersion : Nat
  capabilities : List String

def readServerInfo (value : Value) : Option ServerInfo := do
  let name ← (Codec.string.orDefault "").read (value.get "name")
  let version ← (Codec.string.orDefault "").read (value.get "version")
  let protocolVersion ← Codec.number.required.read (value.get "protocol_version")
  guard (protocolVersion < 4294967296)
  let capabilities ← (Codec.string.list.orDefault []).read (value.get "capabilities")
  return ⟨name, version, protocolVersion, capabilities⟩

inductive Handshake where
  | compatible (info : ServerInfo)
  | incompatible (info : ServerInfo)
  | unavailable

def negotiate (reply : HttpReply) : Handshake :=
  match reply.success.bind readServerInfo with
  | none => .unavailable
  | some info =>
      if info.protocolVersion = PROTOCOL_VERSION then .compatible info else .incompatible info

def incompatibleMessage (info : ServerInfo) : String :=
  let direction :=
    if PROTOCOL_VERSION < info.protocolVersion then
      "The server is newer: upgrade this keeplin client/daemon to a release " ++
        "that speaks the server's protocol."
    else
      "The client is newer: upgrade keeplin-srv (its Cargo.toml pins a " ++
        "keeplin-core rev; bump it to a matching release and run its test " ++
        "suite), or downgrade this client."
  "incompatible sync server: " ++ (if info.name = "" then "server" else info.name) ++ " " ++
    (if info.version = "" then "(unknown version)" else info.version) ++ " speaks protocol " ++
    toString info.protocolVersion ++ " but this client speaks protocol " ++
    toString PROTOCOL_VERSION ++ ". " ++ direction ++
    " Sync is disabled until the versions match."

namespace HistoryWorld

variable (forms : TextForms) (serverUrl authToken : String)

/-- Open a database: a server that speaks another protocol is refused. -/
def opened (db : Db) (reply : HttpReply) : Except String HistoryWorld :=
  match httpBaseOf serverUrl with
  | none => .ok ⟨db, .unknown, false, [], []⟩
  | some base =>
      let requests : List HttpRequest := [⟨versionUrl (dropSlashes base), none, none⟩]
      match negotiate reply with
      | .compatible info => .ok ⟨db, .known info.capabilities, false, requests, []⟩
      | .incompatible info => .error (incompatibleMessage info)
      | .unavailable => .ok ⟨db, .unknown, false, requests, []⟩

def versionRequests (world : HistoryWorld) : Nat :=
  world.requests.countP fun request => request.token.isNone

def historyRequests (position : Nat) (world : HistoryWorld) : Nat :=
  world.requests.countP (HttpRequest.isHistoryOf position)

/-- The call at the position, if there is one, is at such a stage. -/
def isAt (kind : ∀ {T : Type}, HistoryStage T → Bool) (position : Nat) (world : HistoryWorld) :
    Bool :=
  world.calls[position]?.any fun call => kind call.stage

/-- The server is not known to lack histories. -/
def MayServe (cache : CapabilityCache) : Prop :=
  cache = .unavailable ∨ ∃ capabilities, cache = .known capabilities ∧ "history" ∈ capabilities

/-- A request for the version without the token, or with it for the history that its call is
to tell. -/
def Addressed (calls : List HistoryCall) (request : HttpRequest) : Prop :=
  ∃ base, httpBaseOf serverUrl = some base ∧
    ((∃ caller, request = ⟨versionUrl base, none, caller⟩) ∨
      request = ⟨versionUrl (dropSlashes base), none, none⟩ ∨
      ∃ position call, calls[position]? = some call ∧ request =
        ⟨historyUrl forms base call.kind call.id call.limit, some authToken, some position⟩)

structure Sound (world : HistoryWorld) : Prop where
  asked : world.versionRequests + (if world.serverCapabilities = .unknown then 1 else 0) ≤ 2
  addressed : ∀ request ∈ world.requests,
    Addressed forms serverUrl authToken world.calls request
  once : ∀ position, world.historyRequests position +
    (world.isAt HistoryStage.early position).toNat ≤ 1
  mayServe : ∀ position, 0 < world.historyRequests position +
    (world.isAt HistoryStage.trusting position).toNat → MayServe world.serverCapabilities
  requested : ∀ (position : Nat) (call : HistoryCall), world.calls[position]? = some call →
    call.stage.requested = true → ∃ base, httpBaseOf serverUrl = some base ∧
      ⟨historyUrl forms base call.kind call.id call.limit, some authToken, some position⟩ ∈
        world.requests

/-- What later steps cannot take back.  When the server is known to serve no histories, a call
may still make its request only where it is then past the look at the flag. -/
structure Continues (world next : HistoryWorld) : Prop where
  cache : world.serverCapabilities ≠ .unknown →
    next.serverCapabilities = world.serverCapabilities
  flag : world.historyUnsupported = true → next.historyUnsupported = true
  silent : world.historyUnsupported = true → ∀ position,
    next.historyRequests position + (next.isAt HistoryStage.passed position).toNat ≤
      world.historyRequests position + (world.isAt HistoryStage.passed position).toNat
  finished : ∀ (position : Nat) (call : HistoryCall), world.calls[position]? = some call →
    call.stage.finished = true → next.calls[position]? = some call

theorem Continues.refl (world : HistoryWorld) : world.Continues world :=
  ⟨fun _ => rfl, id, fun _ _ => Nat.le_refl _, fun _ _ hcall _ => hcall⟩

theorem Continues.trans {first second third : HistoryWorld} (hfirst : first.Continues second)
    (hsecond : second.Continues third) : first.Continues third where
  cache := fun hknown => by
    have hsame := hfirst.cache hknown
    rw [hsecond.cache (hsame ▸ hknown), hsame]
  flag := fun hflag => hsecond.flag (hfirst.flag hflag)
  silent := fun hflag position =>
    Nat.le_trans (hsecond.silent (hfirst.flag hflag) position) (hfirst.silent hflag position)
  finished := fun position call hcall hfinished =>
    hsecond.finished position call (hfirst.finished position call hcall hfinished) hfinished

/-- What the call at a position is to tell stays what it is. -/
def KeepsCalls (world next : HistoryWorld) : Prop :=
  ∀ (position : Nat) (call : HistoryCall), world.calls[position]? = some call →
    ∃ stage, next.calls[position]? = some { call with stage }

variable {forms serverUrl authToken}

theorem Addressed.kept {world next : HistoryWorld} {request : HttpRequest}
    (hkept : KeepsCalls world next)
    (haddressed : Addressed forms serverUrl authToken world.calls request) :
    Addressed forms serverUrl authToken next.calls request := by
  obtain ⟨base, hbase, hversion | hopening | ⟨position, call, hcall, hrequest⟩⟩ := haddressed
  · exact ⟨base, hbase, Or.inl hversion⟩
  · exact ⟨base, hbase, Or.inr (Or.inl hopening)⟩
  · obtain ⟨stage, hnext⟩ := hkept position call hcall
    exact ⟨base, hbase, Or.inr (Or.inr ⟨position, { call with stage }, hnext, hrequest⟩)⟩

/-- A request for a history is made for a call that is there. -/
theorem Sound.historyRequests_eq_zero {world : HistoryWorld} {position : Nat}
    (hsound : Sound forms serverUrl authToken world) (hnone : world.calls[position]? = none) :
    world.historyRequests position = 0 := by
  apply List.countP_eq_zero.mpr
  intro request hrequest hhistory
  obtain ⟨base, _, ⟨caller, rfl⟩ | rfl | ⟨other, call, hcall, rfl⟩⟩ :=
    hsound.addressed request hrequest
  · exact Bool.false_ne_true hhistory
  · exact Bool.false_ne_true hhistory
  · have hsame : other = position := by simpa [HttpRequest.isHistoryOf] using hhistory
    rw [hsame, hnone] at hcall
    cases hcall

variable (forms serverUrl authToken)

/-- What a step may do that takes a call to another stage. -/
structure Moves (world next : HistoryWorld) (position : Nat) (call : HistoryCall)
    (stage : HistoryStage call.kind.Entity) (sent : List HttpRequest) : Prop where
  found : world.calls[position]? = some call
  calls : next.calls = world.calls.set position { call with stage }
  requests : next.requests = world.requests ++ sent
  cache : world.serverCapabilities ≠ .unknown →
    next.serverCapabilities = world.serverCapabilities
  flag : world.historyUnsupported = true → next.historyUnsupported = true
  unfinished : call.stage.finished = false
  asked : (sent.countP fun request => request.token.isNone) +
    (if next.serverCapabilities = .unknown then 1 else 0) ≤
      if world.serverCapabilities = .unknown then 1 else 0
  addressed : ∀ request ∈ sent, Addressed forms serverUrl authToken world.calls request
  own : ∀ request ∈ sent, request.caller = some position
  once : sent.countP (HttpRequest.isHistoryOf position) + stage.early.toNat ≤
    call.stage.early.toNat
  silent : world.historyUnsupported = true →
    sent.countP (HttpRequest.isHistoryOf position) + stage.passed.toNat ≤
      call.stage.passed.toNat
  mayServe : 0 < sent.countP (HttpRequest.isHistoryOf position) + stage.trusting.toNat →
    MayServe next.serverCapabilities
  requested : stage.requested = true → ∃ base, httpBaseOf serverUrl = some base ∧
    ⟨historyUrl forms base call.kind call.id call.limit, some authToken, some position⟩ ∈
      next.requests

namespace Moves

variable {forms serverUrl authToken}
variable {world next : HistoryWorld} {position : Nat} {call : HistoryCall}
  {stage : HistoryStage call.kind.Entity} {sent : List HttpRequest}

theorem isAt_before (hmoves : Moves forms serverUrl authToken world next position call stage sent)
    (kind : ∀ {T : Type}, HistoryStage T → Bool) :
    world.isAt kind position = kind call.stage := by
  unfold HistoryWorld.isAt
  rw [hmoves.found]
  rfl

theorem isAt_after (hmoves : Moves forms serverUrl authToken world next position call stage sent)
    (kind : ∀ {T : Type}, HistoryStage T → Bool) : next.isAt kind position = kind stage := by
  unfold HistoryWorld.isAt
  rw [hmoves.calls, List.getElem?_set_self (List.getElem?_eq_some_iff.mp hmoves.found).1]
  rfl

theorem historyRequests_eq
    (hmoves : Moves forms serverUrl authToken world next position call stage sent) (other : Nat) :
    next.historyRequests other =
      world.historyRequests other + sent.countP (HttpRequest.isHistoryOf other) := by
  unfold HistoryWorld.historyRequests
  rw [hmoves.requests, List.countP_append]

/-- The step is the call's own: what is counted for another position stays. -/
theorem others (hmoves : Moves forms serverUrl authToken world next position call stage sent)
    {other : Nat} (hother : other ≠ position) (kind : ∀ {T : Type}, HistoryStage T → Bool) :
    next.historyRequests other = world.historyRequests other ∧
      next.isAt kind other = world.isAt kind other := by
  constructor
  · have hnone : sent.countP (HttpRequest.isHistoryOf other) = 0 := by
      apply List.countP_eq_zero.mpr
      intro request hrequest hhistory
      have hcaller : request.caller = some other := by
        simp only [HttpRequest.isHistoryOf, Bool.and_eq_true, decide_eq_true_eq] at hhistory
        exact hhistory.2
      rw [hmoves.own request hrequest] at hcaller
      exact hother (Option.some.inj hcaller).symm
    rw [hmoves.historyRequests_eq, hnone, Nat.add_zero]
  · unfold HistoryWorld.isAt
    rw [hmoves.calls, List.getElem?_set_ne hother.symm]

theorem keepsCalls
    (hmoves : Moves forms serverUrl authToken world next position call stage sent) :
    KeepsCalls world next := by
  intro other old hold
  rw [hmoves.calls]
  by_cases hother : other = position
  · subst hother
    rw [hmoves.found] at hold
    obtain rfl := Option.some.inj hold
    exact ⟨stage, List.getElem?_set_self (List.getElem?_eq_some_iff.mp hmoves.found).1⟩
  · exact ⟨old.stage, (List.getElem?_set_ne (Ne.symm hother)).trans hold⟩

theorem sound (hmoves : Moves forms serverUrl authToken world next position call stage sent)
    (hsound : Sound forms serverUrl authToken world) : Sound forms serverUrl authToken next where
  asked := by
    have hbefore := hsound.asked
    have hasked := hmoves.asked
    unfold versionRequests at hbefore ⊢
    rw [hmoves.requests, List.countP_append]
    omega
  addressed := by
    intro request hrequest
    rw [hmoves.requests] at hrequest
    rcases List.mem_append.mp hrequest with hold | hnew
    · exact (hsound.addressed request hold).kept hmoves.keepsCalls
    · exact (hmoves.addressed request hnew).kept hmoves.keepsCalls
  once := by
    intro other
    have hbefore := hsound.once other
    by_cases hother : other = position
    · subst hother
      have honce := hmoves.once
      rw [hmoves.isAt_before] at hbefore
      rw [hmoves.historyRequests_eq, hmoves.isAt_after]
      omega
    · obtain ⟨hrequests, hat⟩ := hmoves.others hother HistoryStage.early
      rw [hrequests, hat]
      exact hbefore
  mayServe := by
    intro other hsome
    have hold : 0 < world.historyRequests other +
        (world.isAt HistoryStage.trusting other).toNat → MayServe next.serverCapabilities := by
      intro hbefore
      have hserves := hsound.mayServe other hbefore
      have hknown : world.serverCapabilities ≠ .unknown := by
        rintro hunknown
        rw [hunknown] at hserves
        rcases hserves with h | ⟨capabilities, h, _⟩ <;> cases h
      rw [hmoves.cache hknown]
      exact hserves
    by_cases hother : other = position
    · subst hother
      rw [hmoves.historyRequests_eq, hmoves.isAt_after] at hsome
      by_cases hnew : 0 < sent.countP (HttpRequest.isHistoryOf other) + stage.trusting.toNat
      · exact hmoves.mayServe hnew
      · exact hold (by omega)
    · obtain ⟨hrequests, hat⟩ := hmoves.others hother HistoryStage.trusting
      rw [hrequests, hat] at hsome
      exact hold hsome
  requested := by
    intro other old hold hrequested
    by_cases hother : other = position
    · subst hother
      rw [hmoves.calls,
        List.getElem?_set_self (List.getElem?_eq_some_iff.mp hmoves.found).1] at hold
      obtain rfl := Option.some.inj hold
      exact hmoves.requested hrequested
    · rw [hmoves.calls, List.getElem?_set_ne (Ne.symm hother)] at hold
      obtain ⟨base, hbase, hmem⟩ := hsound.requested other old hold hrequested
      refine ⟨base, hbase, ?_⟩
      rw [hmoves.requests]
      exact List.mem_append_left _ hmem

end Moves

/-- A step that takes no call to another stage; calls may begin. -/
structure Rests (world next : HistoryWorld) : Prop where
  calls : ∃ begun : List HistoryCall, next.calls = world.calls ++ begun ∧
    ∀ call : HistoryCall, call ∈ begun → call.stage.passed = false ∧
      call.stage.trusting = false ∧ call.stage.requested = false
  requests : next.requests = world.requests
  cache : next.serverCapabilities = world.serverCapabilities
  flag : next.historyUnsupported = world.historyUnsupported

namespace Rests

variable {forms serverUrl authToken}
variable {world next : HistoryWorld}

theorem historyRequests_eq (hrests : Rests world next) (position : Nat) :
    next.historyRequests position = world.historyRequests position := by
  unfold historyRequests
  rw [hrests.requests]

theorem getElem?_of_some (hrests : Rests world next) {position : Nat} {call : HistoryCall}
    (hcall : world.calls[position]? = some call) : next.calls[position]? = some call := by
  obtain ⟨begun, hcalls, -⟩ := hrests.calls
  rw [hcalls]
  exact List.getElem?_append_left (List.getElem?_eq_some_iff.mp hcall).1 ▸ hcall

/-- A call is one that was there, or has only begun. -/
theorem was_or_begun (hrests : Rests world next) {position : Nat} {call : HistoryCall}
    (hcall : next.calls[position]? = some call) :
    world.calls[position]? = some call ∨ world.calls[position]? = none ∧
      call.stage.passed = false ∧ call.stage.trusting = false ∧
        call.stage.requested = false := by
  obtain ⟨begun, hcalls, hbegun⟩ := hrests.calls
  rw [hcalls] at hcall
  by_cases hposition : position < world.calls.length
  · exact Or.inl (List.getElem?_append_left hposition ▸ hcall)
  · rw [List.getElem?_append_right (Nat.not_lt.mp hposition)] at hcall
    exact Or.inr ⟨List.getElem?_eq_none (Nat.not_lt.mp hposition),
      hbegun call (List.mem_of_getElem? hcall)⟩

theorem isAt_le (hrests : Rests world next) (position : Nat)
    (kind : ∀ {T : Type}, HistoryStage T → Bool)
    (hnone : ∀ call : HistoryCall, call.stage.passed = false ∧ call.stage.trusting = false ∧
      call.stage.requested = false → kind call.stage = false) :
    (next.isAt kind position).toNat ≤ (world.isAt kind position).toNat := by
  unfold isAt
  cases hcall : next.calls[position]? with
  | none => exact Nat.zero_le _
  | some call =>
      rcases hrests.was_or_begun hcall with hold | ⟨-, hbegun⟩
      · rw [hold]
      · have hat : kind call.stage = false := hnone call hbegun
        exact (Nat.le_of_eq (congrArg Bool.toNat hat)).trans (Nat.zero_le _)

theorem sound (hrests : Rests world next) (hsound : Sound forms serverUrl authToken world) :
    Sound forms serverUrl authToken next where
  asked := by
    have hbefore := hsound.asked
    unfold versionRequests at hbefore ⊢
    rw [hrests.requests, hrests.cache]
    exact hbefore
  addressed := by
    intro request hrequest
    rw [hrests.requests] at hrequest
    exact (hsound.addressed request hrequest).kept fun _ call hcall =>
      ⟨call.stage, hrests.getElem?_of_some hcall⟩
  once := by
    intro position
    have hbefore := hsound.once position
    rw [hrests.historyRequests_eq]
    cases hcall : world.calls[position]? with
    | none =>
        rw [hsound.historyRequests_eq_zero hcall, Nat.zero_add]
        exact Bool.toNat_le _
    | some call =>
        unfold isAt at hbefore ⊢
        rw [hrests.getElem?_of_some hcall]
        rw [hcall] at hbefore
        exact hbefore
  mayServe := by
    intro position hsome
    have hat := hrests.isAt_le position HistoryStage.trusting fun _ hbegun => hbegun.2.1
    rw [hrests.historyRequests_eq] at hsome
    rw [hrests.cache]
    exact hsound.mayServe position (by omega)
  requested := by
    intro position call hcall hrequested
    rw [hrests.requests]
    rcases hrests.was_or_begun hcall with hold | ⟨-, -, -, hbegun⟩
    · exact hsound.requested position call hold hrequested
    · rw [hbegun] at hrequested
      cases hrequested

end Rests

variable {forms serverUrl authToken}

theorem toNat_le {first second : Bool} (himplies : first = true → second = true) :
    first.toNat ≤ second.toNat := by
  cases first with
  | false => exact Nat.zero_le _
  | true => rw [himplies rfl]

namespace Samples

def served : HttpReply :=
  .answered 200 (some (.object [("capabilities", .array [.string "history"])]))

/-- The server names histories among what it can do, and has none. -/
def steps : List HistoryStep :=
  [.call .note 7 0, .enter 0, .ask 0 served, .request 0, .answer 0 (.answered 404 none), .tell 0]

def emptied : Db := ⟨"A", ∅, ∅, ∅, ∅, ∅, [], [], none⟩

def start : HistoryWorld :=
  ⟨emptied, .unknown, false,
    [⟨versionUrl (dropSlashes ['h', 't', 't', 'p', ':', '/', '/', 'h']), none, none⟩], []⟩

end Samples

end HistoryWorld

end Keeplin
