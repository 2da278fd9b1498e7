/-
What a configuration exposes: a listener without credentials that the network
reaches, and the token of a server that would go there in the clear.
-/
import Keeplin.JournalTail
import Keeplin.Rfc3986

namespace Keeplin

open Rfc3986

inductive Mode where
  | offline
  | server
deriving DecidableEq

/-- What of a configuration the check reads. -/
structure Config where
  mode : Mode
  serverUrl : Text
  grpcAddr : Text
  httpAddr : Option Text
  authUsername : Option String
  authPassword : Option String

/-- The socket addresses of the standard library. -/
structure SocketAddrs (Addr : Type) where
  parse : Text → Option Addr
  isLoopback : Addr → Bool
  toText : Addr → Text

/-- The host of a loopback, as the check knows it. -/
def isLoopbackHost (host : Text) : Bool :=
  host = "localhost".toList || host = "127.0.0.1".toList || host = "::1".toList ||
    "127.".toList.isPrefixOf host || host.map Char.toLower = "ip6-localhost".toList

/-- What the check takes for the host of an authority. -/
def authorityHost (authority : Text) : Text :=
  match stripPrefix ['['] authority with
  | some after => after.takeWhile (· ≠ ']')
  | none => ((splitLast ':' authority).map Prod.fst).getD authority

def plaintextWsRemoteHost (url : Text) : Option Text :=
  match stripPrefix "ws://".toList url with
  | none => none
  | some rest =>
      let host := authorityHost (rest.takeWhile fun c => c ∉ ['/', '?', '#'])
      if isLoopbackHost host then none else some host

namespace Config

variable {Addr : Type} (config : Config) (addrs : SocketAddrs Addr)

def authEnabled : Bool :=
  match config.authUsername, config.authPassword with
  | some user, some password => user ≠ "" && password ≠ ""
  | _, _ => false

/-- The issue of a listener that the network reaches. -/
def listenerIssue (name address : Text) : List Text :=
  match addrs.parse address with
  | some addr =>
      if addrs.isLoopback addr then []
      else [name ++ " (".toList ++ addrs.toText addr ++
        (") is reachable from the network but no auth is configured — set auth_username + " ++
          "auth_password (or KEEPLIN_AUTH_*)").toList]
  | none => []

def securityIssues : List Text :=
  (if config.authEnabled then []
    else listenerIssue addrs "grpc_addr".toList config.grpcAddr ++
      match config.httpAddr with
      | some http => listenerIssue addrs "http_addr".toList http
      | none => []) ++
  (if config.mode = .server then
    match plaintextWsRemoteHost config.serverUrl with
    | some host =>
        ["server_url uses plaintext ws:// to a non-loopback host (".toList ++ host ++
          "), leaking the auth_token in transit — use wss:// (TLS)".toList]
    | none => []
    else [])

/-- The network reaches a listener, and there are no credentials. -/
def ListensOpen : Prop :=
  config.authEnabled = false ∧
    ∃ address, (address = config.grpcAddr ∨ config.httpAddr = some address) ∧
      ∃ addr, addrs.parse address = some addr ∧ addrs.isLoopback addr = false

end Config

def IsLoopbackName (name : Text) : Prop :=
  name = "localhost".toList ∨ name = "::1".toList ∨
    name.map Char.toLower = "ip6-localhost".toList

/-- What stands before the host, or the front of its name, looks like a loopback:
the user information begins like an address of it, or is its name with a colon
and a password behind which no colon comes. -/
def Misread (authority : Authority) : Prop :=
  match authority.userInfo with
  | none => ∃ regName, authority.host = .name regName ∧ "127.".toList <+: regName
  | some user => "127.".toList <+: user ∨
      (authority.port = none ∧ ':' ∉ authority.host.toText ∧
        ∃ name password, user = name ++ ':' :: password ∧ ':' ∉ password ∧ IsLoopbackName name)

theorem isLoopbackHost_iff {host : Text} :
    isLoopbackHost host = true ↔ IsLoopbackName host ∨ "127.".toList <+: host := by
  simp only [isLoopbackHost, IsLoopbackName, Bool.or_eq_true, decide_eq_true_eq,
    List.isPrefixOf_iff_prefix]
  constructor
  · rintro ((((h | rfl) | h) | h) | h)
    · exact .inl (.inl h)
    · exact .inr (by decide)
    · exact .inl (.inr (.inl h))
    · exact .inr h
    · exact .inl (.inr (.inr h))
  · rintro ((h | h | h) | h)
    · exact .inl (.inl (.inl (.inl h)))
    · exact .inl (.inl (.inr h))
    · exact .inr h
    · exact .inl (.inr h)

/-- No name of the loopback has an at sign. -/
theorem IsLoopbackName.not_mem {name : Text} (hname : IsLoopbackName name) : '@' ∉ name := by
  rcases hname with rfl | rfl | hlower
  · decide
  · decide
  · intro hmem
    have hat : '@' ∈ name.map Char.toLower := List.mem_map.mpr ⟨'@', hmem, rfl⟩
    rw [hlower] at hat
    revert hat
    decide

theorem isLoopbackHost_append_at (user rest : Text) :
    isLoopbackHost (user ++ '@' :: rest) = true ↔ "127.".toList <+: user := by
  rw [isLoopbackHost_iff, prefix_append_cons_iff (by decide : '@' ∉ "127.".toList)]
  exact or_iff_right fun hname => hname.not_mem (by simp)

/-- An address that is not the loopback does not look like it. -/
theorem isLoopbackHost_of_isAddress {address : Text} (haddress : IsAddress address)
    (hremote : address ≠ "::1".toList) : isLoopbackHost address = false := by
  rw [Bool.eq_false_iff]
  intro hloopback
  cases haddress with
  | ipv6 hfront hback =>
      rename_i front back
      have hdot : '.' ∉ front := fun hmem => absurd (hfront '.' hmem) (by decide)
      rcases isLoopbackHost_iff.mp hloopback with (hname | hname | hname) | hprefix
      · have hcolon : ':' ∈ "localhost".toList := hname ▸ by simp
        revert hcolon
        decide
      · exact hremote hname
      · have hcolon : ':' ∈ (front ++ ':' :: back).map Char.toLower :=
          List.mem_map.mpr ⟨':', by simp, rfl⟩
        rw [hname] at hcolon
        revert hcolon
        decide
      · rw [prefix_append_cons_iff (by decide : ':' ∉ "127.".toList)] at hprefix
        exact hdot (List.IsPrefix.subset hprefix (by decide))
  | future hversion hrest =>
      rename_i version rest
      have hhead : ∀ {c : Char} {more : Text}, version :: rest = c :: more → c = 'v' ∨ c = 'V' :=
        fun heq => (List.cons.inj heq).1 ▸ hversion
      rcases isLoopbackHost_iff.mp hloopback with (hname | hname | hname) | ⟨more, hprefix⟩
      · exact absurd (hhead hname) (by decide)
      · exact absurd (hhead hname) (by decide)
      · have hlower : version.toLower = 'i' := (List.cons.inj hname).1
        rcases hversion with rfl | rfl <;> exact absurd hlower (by decide)
      · exact absurd (hhead hprefix.symm) (by decide)

theorem isLoopbackHost_of_name {regName : Text} (hplain : ∀ c ∈ regName, isGenDelim c = false)
    (hremote : ¬ (Host.name regName).IsLoopback) :
    isLoopbackHost regName = true ↔ "127.".toList <+: regName := by
  rw [isLoopbackHost_iff]
  refine or_iff_right ?_
  rintro (rfl | rfl | hlower)
  · exact hremote (.inl (by decide))
  · exact absurd (hplain ':' (by decide)) (by decide)
  · exact hremote (.inr (.inl hlower))

section Authority

variable {authority : Authority}

/-- The text behind the user information. -/
def hostText (authority : Authority) : Text :=
  authority.host.toText ++ (authority.port.map fun digits => ':' :: digits).getD []

/-- Without user information the check finds the host. -/
theorem authorityHost_of_none (hwell : authority.WellFormed) (huser : authority.userInfo = none) :
    authorityHost authority.toText =
      match authority.host with
      | .literal address => address
      | .name regName => regName := by
  have htext : authority.toText = hostText authority := by
    rw [Authority.toText, huser]
    rfl
  have hhosts := hwell.host
  rw [htext, hostText]
  cases hhost : authority.host with
  | literal address =>
      rw [hhost] at hhosts
      have hclose : ∀ c ∈ address, decide (c ≠ ']') = true := by
        rintro c hc
        refine decide_eq_true ?_
        rintro rfl
        exact not_mem_of_colons (IsAddress.colons hhosts) (by decide) (by decide) hc
      have hbracket : ∀ rest, Host.toText (.literal address) ++ rest =
          ['['] ++ (address ++ ']' :: rest) := by simp [Host.toText]
      rw [authorityHost, hbracket, stripPrefix_append]
      simp only [List.takeWhile_append_of_pos hclose]
      rw [List.takeWhile_cons_of_neg (by decide), List.append_nil]
  | name regName =>
      rw [hhost] at hhosts
      have hopen : ¬ ['['] <+: Host.toText (.name regName) ++
          (authority.port.map fun digits => ':' :: digits).getD [] := by
        intro hprefix
        have hmem := List.IsPrefix.subset hprefix (List.mem_singleton_self '[')
        rcases List.mem_append.mp hmem with hname | hport
        · exact not_mem_of_plain hhosts (by decide) hname
        · cases hdigits : authority.port with
          | none => simp [hdigits] at hport
          | some digits =>
              rw [hdigits] at hport
              rcases List.mem_cons.mp hport with hcolon | hdigit
              · exact absurd hcolon (by decide)
              · exact hwell.not_mem_port (by decide) hdigits hdigit
      rw [authorityHost, stripPrefix_eq_none hopen]
      have hcolon : ':' ∉ regName := not_mem_of_plain hhosts (by decide)
      cases hdigits : authority.port with
      | none =>
          rw [Option.map_none, Option.getD_none, List.append_nil, Host.toText]
          simp only [splitLast_eq_none.mpr hcolon, Option.map_none, Option.getD_none]
      | some digits =>
          have hport : ':' ∉ digits := hwell.not_mem_port (by decide) hdigits
          rw [Option.map_some, Option.getD_some, Host.toText]
          simp only [splitLast_append regName hport, Option.map_some, Option.getD_some]

/-- With user information the check cuts at the last colon, wherever that is. -/
theorem isLoopbackHost_of_some (hwell : authority.WellFormed) {user : Text}
    (huser : authority.userInfo = some user) :
    isLoopbackHost (authorityHost authority.toText) = true ↔
      "127.".toList <+: user ∨ (':' ∉ hostText authority ∧
        ∃ name password, user = name ++ ':' :: password ∧ ':' ∉ password ∧
          IsLoopbackName name) := by
  have htext : authority.toText = user ++ '@' :: hostText authority := by
    simp [Authority.toText, hostText, huser]
  have hopen : ¬ ['['] <+: user ++ '@' :: hostText authority := by
    rw [prefix_append_cons_iff (by decide : '@' ∉ ['['])]
    intro hprefix
    exact not_mem_of_colons (hwell.userInfo user huser) (by decide) (by decide)
      (List.IsPrefix.subset hprefix (List.mem_singleton_self '['))
  rw [htext, authorityHost, stripPrefix_eq_none hopen]
  simp only
  by_cases htail : ':' ∈ hostText authority
  · have hsplit := splitLast_append_cons (List.mem_cons_of_mem '@' htail) user
    rw [hsplit]
    cases hlast : splitLast ':' ('@' :: hostText authority) with
    | none => exact absurd (List.mem_cons_of_mem '@' htail) (splitLast_eq_none.mp hlast)
    | some found =>
        obtain ⟨front, back⟩ := found
        obtain ⟨hlist, -⟩ := splitLast_eq_some hlast
        cases front with
        | nil => exact absurd (List.cons.inj hlist).1 (by decide)
        | cons c front =>
            obtain rfl : '@' = c := (List.cons.inj hlist).1
            rw [Option.map_some, Option.map_some, Option.getD_some, isLoopbackHost_append_at]
            exact ⟨.inl, fun h => h.resolve_right fun hno => hno.1 htail⟩
  · cases hlast : splitLast ':' user with
    | none =>
        have hcolon : ':' ∉ user := splitLast_eq_none.mp hlast
        have hnone : splitLast ':' (user ++ '@' :: hostText authority) = none :=
          splitLast_eq_none.mpr (by simp [hcolon, htail])
        rw [hnone, Option.map_none, Option.getD_none, isLoopbackHost_append_at]
        refine ⟨.inl, fun h => h.resolve_right ?_⟩
        rintro ⟨-, name, password, rfl, -⟩
        exact hcolon (by simp)
    | some found =>
        obtain ⟨name, password⟩ := found
        obtain ⟨rfl, hpassword⟩ := splitLast_eq_some hlast
        have hrest : ':' ∉ password ++ '@' :: hostText authority := by simp [hpassword, htail]
        rw [List.append_assoc, List.cons_append, splitLast_append name hrest, Option.map_some,
          Option.getD_some, isLoopbackHost_iff,
          prefix_append_cons_iff (by decide : ':' ∉ "127.".toList), or_comm]
        refine or_congr_right ⟨fun hname => ⟨htail, name, password, rfl, hpassword, hname⟩, ?_⟩
        rintro ⟨-, other, word, hsame, hword, hname⟩
        have hcut := splitLast_append other hword
        rw [← hsame, splitLast_append name hpassword, Option.some.injEq, Prod.mk.injEq] at hcut
        exact hcut.1 ▸ hname

theorem not_mem_hostText : ':' ∉ hostText authority ↔
    authority.port = none ∧ ':' ∉ authority.host.toText := by
  cases hport : authority.port with
  | none => simp [hostText, hport]
  | some digits => simp [hostText, hport]

/-- The check takes a remote host for a loopback where it misreads the authority. -/
theorem isLoopbackHost_authorityHost (hwell : authority.WellFormed)
    (hremote : ¬ authority.host.IsLoopback) :
    isLoopbackHost (authorityHost authority.toText) = true ↔ Misread authority := by
  cases huser : authority.userInfo with
  | none =>
      rw [authorityHost_of_none hwell huser, Misread, huser]
      have hhosts := hwell.host
      cases hhost : authority.host with
      | literal address =>
          rw [hhost] at hhosts hremote
          simp [isLoopbackHost_of_isAddress hhosts hremote]
      | name regName =>
          rw [hhost] at hhosts hremote
          simp [isLoopbackHost_of_name hhosts hremote]
  | some user =>
      rw [isLoopbackHost_of_some hwell huser, Misread, huser, not_mem_hostText]
      simp only [and_assoc]

end Authority

/-- A URL in plaintext is found when its scheme is in lower case and its authority
is read right. -/
theorem plaintextWsRemoteHost_isSome {uri : Uri} (hwell : uri.WellFormed)
    (hscheme : uri.scheme.map Char.toLower = "ws".toList)
    (hremote : ¬ uri.authority.host.IsLoopback) :
    (plaintextWsRemoteHost uri.toText).isSome = true ↔
      uri.scheme = "ws".toList ∧ ¬ Misread uri.authority := by
  by_cases hlower : uri.scheme = "ws".toList
  · have htext : uri.toText = "ws://".toList ++ (uri.authority.toText ++ uri.rest) := by
      rw [Uri.toText, hlower, List.append_assoc]
      rfl
    rw [plaintextWsRemoteHost, htext, stripPrefix_append]
    simp only [hwell.takeWhile_authority]
    rw [← isLoopbackHost_authorityHost hwell.authority hremote]
    split
    · next hloopback => simp [hloopback]
    · next hfound => simp [hfound, hlower]
  · have hprefix : ¬ "ws://".toList <+: uri.toText := by
      intro hprefix
      refine hlower ?_
      have hlength : uri.scheme.length = 2 := by
        rw [← List.length_map Char.toLower, hscheme]
        rfl
      have htake : uri.toText.take 2 = "ws".toList := by
        obtain ⟨more, hmore⟩ := hprefix
        rw [← hmore]
        rfl
      rw [← htake, Uri.toText, List.append_assoc, List.append_assoc, List.take_append_of_le_length
        hlength.ge, ← hlength, List.take_length]
    rw [plaintextWsRemoteHost, stripPrefix_eq_none hprefix]
    exact iff_of_false Bool.false_ne_true fun hread => hlower hread.1

/-- Two hosts that pass for a loopback. -/
example : plaintextWsRemoteHost "ws://127.example.com/ws".toList = none ∧
    plaintextWsRemoteHost "ws://localhost:secret@example.com/ws".toList = none := by decide

namespace Config

variable {Addr : Type} {config : Config} {addrs : SocketAddrs Addr}

theorem listenerIssue_ne_nil {name address : Text} :
    listenerIssue addrs name address ≠ [] ↔
      ∃ addr, addrs.parse address = some addr ∧ addrs.isLoopback addr = false := by
  rw [listenerIssue]
  cases addrs.parse address with
  | none => simp
  | some addr => cases addrs.isLoopback addr <;> simp

/-- In server mode, with a URL in plaintext to a remote host, there is an issue
exactly when a listener has one or the check reads the URL right. -/
theorem securityIssues_ne_nil_iff (hmode : config.mode = .server) {uri : Uri}
    (hwell : uri.WellFormed) (hurl : config.serverUrl = uri.toText)
    (hscheme : uri.scheme.map Char.toLower = "ws".toList)
    (hremote : ¬ uri.authority.host.IsLoopback) :
    config.securityIssues addrs ≠ [] ↔
      config.ListensOpen addrs ∨ (uri.scheme = "ws".toList ∧ ¬ Misread uri.authority) := by
  rw [← plaintextWsRemoteHost_isSome hwell hscheme hremote, ← hurl, securityIssues, Ne,
    List.append_eq_nil_iff, Classical.not_and_iff_not_or_not, if_pos hmode]
  refine or_congr ?_ ?_
  · cases hauth : config.authEnabled with
    | true => simp [ListensOpen, hauth]
    | false =>
        rw [if_neg Bool.false_ne_true, List.append_eq_nil_iff, Classical.not_and_iff_not_or_not,
          ListensOpen, and_iff_right hauth]
        constructor
        · rintro (hgrpc | hhttp)
          · exact ⟨config.grpcAddr, .inl rfl, listenerIssue_ne_nil.mp hgrpc⟩
          · cases hfound : config.httpAddr with
            | none => simp [hfound] at hhttp
            | some address =>
                rw [hfound] at hhttp
                exact ⟨address, .inr rfl, listenerIssue_ne_nil.mp hhttp⟩
        · rintro ⟨address, rfl | hfound, hopen⟩
          · exact .inl (listenerIssue_ne_nil.mpr hopen)
          · rw [hfound]
            exact .inr (listenerIssue_ne_nil.mpr hopen)
  · cases plaintextWsRemoteHost config.serverUrl <;> simp

end Config

namespace SecurityWitness

/-- The listener of the default configuration, on a loopback. -/
def localAddrs : SocketAddrs Text where
  parse text := if text = "127.0.0.1:50051".toList then some text else none
  isLoopback _ := true
  toText addr := addr

def config (url : Text) : Config where
  mode := .server
  serverUrl := url
  grpcAddr := "127.0.0.1:50051".toList
  httpAddr := none
  authUsername := none
  authPassword := none

def uri (scheme : String) (userInfo : Option String) (host : String) : Uri where
  scheme := scheme.toList
  authority := ⟨userInfo.map String.toList, .name host.toList, some "9000".toList⟩
  rest := "/ws".toList

theorem wellFormed_uri {scheme host : String} {userInfo : Option String}
    (huser : ∀ user ∈ userInfo, ∀ c ∈ user.toList, isGenDelim c = true → c = ':')
    (hhost : ∀ c ∈ host.toList, isGenDelim c = false) : (uri scheme userInfo host).WellFormed where
  authority := ⟨fun user huserInfo => by
      obtain ⟨found, hfound, rfl⟩ := Option.map_eq_some_iff.mp huserInfo
      exact huser found hfound, hhost, fun digits hdigits => by
      obtain rfl : "9000".toList = digits := Option.some.inj hdigits
      exact List.all_iff_forall_prop.mp (by decide)⟩
  rest := .inr ⟨'/', "ws".toList, rfl, by decide⟩

theorem not_isGenDelim_example : ∀ c ∈ "example.com".toList, isGenDelim c = false :=
  List.all_iff_forall_prop.mp (by decide)

theorem not_isLoopback_example : ¬ (Host.name "example.com".toList).IsLoopback := by
  intro hloopback
  rcases Host.digits_of_isLoopback hloopback (by decide) (by decide) 'e' (by decide) with h | h
  · exact absurd h (by decide)
  · exact absurd h (by decide)

/-- A URL in plaintext to a remote host is found. -/
theorem securityIssues_remote :
    (config (uri "ws" none "example.com").toText).securityIssues localAddrs ≠ [] := by
  refine (Config.securityIssues_ne_nil_iff rfl (wellFormed_uri (by simp) not_isGenDelim_example)
    rfl (by decide) not_isLoopback_example).mpr (.inr ⟨rfl, ?_⟩)
  rintro ⟨regName, hname, hprefix⟩
  obtain rfl : "example.com".toList = regName := Host.name.inj hname
  exact absurd hprefix (by decide)

/-- The same URL with its scheme in upper case is not. -/
theorem securityIssues_silent :
    ¬ ∀ (config : Config) (uri : Uri), config.mode = .server → uri.WellFormed →
      config.serverUrl = uri.toText → uri.scheme.map Char.toLower = "ws".toList →
      ¬ uri.authority.host.IsLoopback → config.securityIssues localAddrs ≠ [] := by
  intro hfound
  refine hfound (config (uri "WS" none "example.com").toText) (uri "WS" none "example.com") rfl
    (wellFormed_uri (by simp) not_isGenDelim_example) rfl (by decide) not_isLoopback_example ?_
  decide +kernel

end SecurityWitness

end Keeplin
