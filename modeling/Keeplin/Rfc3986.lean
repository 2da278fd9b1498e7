/-
Generic URIs with an authority.  The gen-delims tell the parts of an authority
apart: the user information may have colons, a host in brackets too, and neither
a name nor a port has any of them.
-/
import Keeplin.TextCuts

namespace Keeplin

namespace Rfc3986

def isGenDelim (c : Char) : Bool :=
  c ∈ [':', '/', '?', '#', '[', ']', '@']

def isHexDigit (c : Char) : Bool :=
  c.isDigit || ('a' ≤ c && c ≤ 'f') || ('A' ≤ c && c ≤ 'F')

/-- What stands for the host: an address in brackets, or a name, which may be an
IPv4 address. -/
inductive Host where
  | literal (address : List Char)
  | name (regName : List Char)
deriving DecidableEq

structure Authority where
  userInfo : Option (List Char)
  host : Host
  port : Option (List Char)
deriving DecidableEq

structure Uri where
  scheme : List Char
  authority : Authority
  /-- The path, the query and the fragment. -/
  rest : List Char
deriving DecidableEq

def Host.toText : Host → List Char
  | .literal address => '[' :: (address ++ [']'])
  | .name regName => regName

def Authority.toText (authority : Authority) : List Char :=
  (authority.userInfo.map fun user => user ++ ['@']).getD [] ++ authority.host.toText ++
    (authority.port.map fun digits => ':' :: digits).getD []

def Uri.toText (uri : Uri) : List Char :=
  uri.scheme ++ "://".toList ++ uri.authority.toText ++ uri.rest

/-- An IPv6 address, by its first group, or an address of a version to come. -/
inductive IsAddress : List Char → Prop where
  | ipv6 {front back : List Char} (hfront : ∀ c ∈ front, isHexDigit c = true)
      (hback : ∀ c ∈ back, isHexDigit c = true ∨ c = ':' ∨ c = '.') :
      IsAddress (front ++ ':' :: back)
  | future {version : Char} {rest : List Char} (hversion : version = 'v' ∨ version = 'V')
      (hrest : ∀ c ∈ rest, isGenDelim c = true → c = ':') : IsAddress (version :: rest)

def Host.WellFormed : Host → Prop
  | .literal address => IsAddress address
  | .name regName => ∀ c ∈ regName, isGenDelim c = false

structure Authority.WellFormed (authority : Authority) : Prop where
  userInfo : ∀ user ∈ authority.userInfo, ∀ c ∈ user, isGenDelim c = true → c = ':'
  host : authority.host.WellFormed
  port : ∀ digits ∈ authority.port, ∀ c ∈ digits, c.isDigit = true

structure Uri.WellFormed (uri : Uri) : Prop where
  authority : uri.authority.WellFormed
  rest : uri.rest = [] ∨ ∃ c rest, uri.rest = c :: rest ∧ c ∈ ['/', '?', '#']

/-- A number below 256 in decimal digits. -/
def IsDecOctet (text : List Char) : Prop := ∃ value < 256, text = Nat.toDigits 10 value

/-- The names of the loopback, in any letter case, an IPv4 address whose first
number is 127, and the IPv6 address `::1`. -/
def Host.IsLoopback : Host → Prop
  | .literal address => address = "::1".toList
  | .name regName =>
      regName.map Char.toLower = "localhost".toList ∨
        regName.map Char.toLower = "ip6-localhost".toList ∨
        ∃ second third fourth, IsDecOctet second ∧ IsDecOctet third ∧ IsDecOctet fourth ∧
          regName = "127.".toList ++ second ++ '.' :: (third ++ '.' :: fourth)

theorem not_isGenDelim_of_isHexDigit {c : Char} (hhex : isHexDigit c = true) :
    isGenDelim c = false := by
  rw [Bool.eq_false_iff]
  intro hdelim
  simp only [isGenDelim, List.mem_cons, List.not_mem_nil, or_false, decide_eq_true_eq] at hdelim
  rcases hdelim with rfl | rfl | rfl | rfl | rfl | rfl | rfl <;> exact absurd hhex (by decide)

theorem not_isGenDelim_of_isDigit {c : Char} (hdigit : c.isDigit = true) : isGenDelim c = false :=
  not_isGenDelim_of_isHexDigit (by simp [isHexDigit, hdigit])

theorem IsAddress.colons {address : List Char} (haddress : IsAddress address) :
    ∀ c ∈ address, isGenDelim c = true → c = ':' := by
  cases haddress with
  | ipv6 hfront hback =>
      intro c hc hdelim
      rcases List.mem_append.mp hc with hc | hc
      · rw [not_isGenDelim_of_isHexDigit (hfront c hc)] at hdelim
        contradiction
      · rcases List.mem_cons.mp hc with rfl | hc
        · rfl
        · rcases hback c hc with hhex | rfl | rfl
          · rw [not_isGenDelim_of_isHexDigit hhex] at hdelim
            contradiction
          · rfl
          · exact absurd hdelim (by decide)
  | future hversion hrest =>
      intro c hc hdelim
      rcases List.mem_cons.mp hc with rfl | hc
      · rcases hversion with rfl | rfl <;> exact absurd hdelim (by decide)
      · exact hrest c hc hdelim

/-- A text without a gen-delim but the colon does not have that gen-delim. -/
theorem not_mem_of_colons {text : List Char} (htext : ∀ c ∈ text, isGenDelim c = true → c = ':')
    {c : Char} (hdelim : isGenDelim c = true) (hcolon : c ≠ ':') : c ∉ text :=
  fun hc => hcolon (htext c hc hdelim)

theorem not_mem_of_plain {text : List Char} (htext : ∀ c ∈ text, isGenDelim c = false)
    {c : Char} (hdelim : isGenDelim c = true) : c ∉ text := by
  intro hc
  rw [htext c hc] at hdelim
  contradiction

section Authority

variable {authority : Authority}

theorem Authority.WellFormed.not_mem_port (hwell : authority.WellFormed) {c : Char}
    (hdelim : isGenDelim c = true) {digits : List Char} (hport : authority.port = some digits) :
    c ∉ digits :=
  not_mem_of_plain (fun d hd => not_isGenDelim_of_isDigit (hwell.port digits hport d hd)) hdelim

/-- The authority ends before a path, a query or a fragment. -/
theorem Authority.WellFormed.not_mem_toText (hwell : authority.WellFormed) {c : Char}
    (hend : c ∈ ['/', '?', '#']) : c ∉ authority.toText := by
  have hdelim : isGenDelim c = true ∧ c ≠ ':' ∧ c ≠ '@' ∧ c ≠ '[' ∧ c ≠ ']' := by
    simp only [List.mem_cons, List.not_mem_nil, or_false] at hend
    rcases hend with rfl | rfl | rfl <;> decide
  obtain ⟨hdelim, hcolon, hat, hopen, hclose⟩ := hdelim
  intro hc
  simp only [toText, List.mem_append] at hc
  rcases hc with (huser | hhost) | hport
  · cases huserInfo : authority.userInfo with
    | none => simp [huserInfo] at huser
    | some user =>
        simp only [huserInfo, Option.map_some, Option.getD_some, List.mem_append,
          List.mem_singleton] at huser
        rcases huser with huser | rfl
        · exact not_mem_of_colons (hwell.userInfo user huserInfo) hdelim hcolon huser
        · contradiction
  · have hhosts := hwell.host
    cases hhost' : authority.host with
    | literal address =>
        rw [hhost'] at hhost hhosts
        simp only [Host.toText, List.mem_cons, List.mem_append, List.not_mem_nil, or_false] at hhost
        rcases hhost with hc | hc | hc
        · exact hopen hc
        · exact not_mem_of_colons (IsAddress.colons hhosts) hdelim hcolon hc
        · exact hclose hc
    | name regName =>
        rw [hhost'] at hhost hhosts
        exact not_mem_of_plain hhosts hdelim hhost
  · cases hdigits : authority.port with
    | none => simp [hdigits] at hport
    | some digits =>
        simp only [hdigits, Option.map_some, Option.getD_some, List.mem_cons] at hport
        rcases hport with hc | hc
        · exact hcolon hc
        · exact hwell.not_mem_port hdelim hdigits hc

end Authority

/-- The text before the path, the query and the fragment is the authority. -/
theorem Uri.WellFormed.takeWhile_authority {uri : Uri} (hwell : uri.WellFormed) :
    (uri.authority.toText ++ uri.rest).takeWhile (fun c => c ∉ ['/', '?', '#']) =
      uri.authority.toText := by
  rw [List.takeWhile_append_of_pos]
  · rcases hwell.rest with hrest | ⟨c, rest, hrest, hend⟩
    · rw [hrest, List.takeWhile_nil, List.append_nil]
    · rw [hrest, List.takeWhile_cons_of_neg, List.append_nil]
      exact fun hnot => of_decide_eq_true hnot hend
  · intro c hc
    exact decide_eq_true fun hend => hwell.authority.not_mem_toText hend hc

/-- A name of the loopback is one of two, or of digits and dots. -/
theorem Host.digits_of_isLoopback {regName : List Char}
    (hloopback : (Host.name regName).IsLoopback)
    (hlocal : regName.map Char.toLower ≠ "localhost".toList)
    (hlocal6 : regName.map Char.toLower ≠ "ip6-localhost".toList) :
    ∀ c ∈ regName, c.isDigit = true ∨ c = '.' := by
  rcases hloopback with h | h | ⟨second, third, fourth, hsecond, hthird, hfourth, rfl⟩
  · exact absurd h hlocal
  · exact absurd h hlocal6
  have hoctet : ∀ {text : List Char}, IsDecOctet text → ∀ c ∈ text, c.isDigit = true := by
    rintro text ⟨value, -, rfl⟩ c hc
    exact Nat.isDigit_of_mem_toDigits (by decide) (by decide) hc
  have hfirst : ∀ c ∈ "127.".toList, c.isDigit = true ∨ c = '.' :=
    List.all_iff_forall_prop.mp (by decide)
  intro c hc
  simp only [List.mem_append, List.mem_cons] at hc
  rcases hc with (hc | hc) | rfl | hc | rfl | hc
  · exact hfirst c hc
  · exact .inl (hoctet hsecond c hc)
  · exact .inr rfl
  · exact .inl (hoctet hthird c hc)
  · exact .inr rfl
  · exact .inl (hoctet hfourth c hc)

end Rfc3986

end Keeplin
