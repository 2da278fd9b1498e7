/-
Basic authentication.  A header is accepted when it has the scheme and the credentials
that are configured; the credentials are read up to the first colon, so a user whose name
has one is never let in.
-/
import Keeplin.Base64
import Keeplin.SecurityIssues
import Keeplin.Tokens

namespace Keeplin

open Tokens

def eqIgnoreAsciiCase (left right : Text) : Bool :=
  left.map Char.toLower = right.map Char.toLower

/-- A comparison that looks at every byte. -/
def ctEq (left right : List UInt8) : Bool :=
  if left.length ≠ right.length then false
  else (left.zip right).foldl (fun same pair => same && pair.1 == pair.2) true

def verifyBasic (header : Option Text) (expectedUser expectedPass : Text) : Bool :=
  if expectedUser.isEmpty || expectedPass.isEmpty then false
  else
    match header with
    | none => false
    | some header =>
        match tokens isWhiteSpace header with
        | [scheme, encoded] =>
            if !eqIgnoreAsciiCase scheme "basic".toList then false
            else
              match Base64.decode encoded with
              | none => false
              | some decoded =>
                  match decode decoded with
                  | .error _ => false
                  | .ok creds =>
                      match splitFirst ':' creds with
                      | none => false
                      | some (user, pass) =>
                          ctEq (utf8 user) (utf8 expectedUser) &&
                            ctEq (utf8 pass) (utf8 expectedPass)
        | _ => false

namespace Config

variable (config : Config)

def validateAuth : Except String Unit :=
  match config.authUsername, config.authPassword with
  | none, none => .ok ()
  | some _, none => .error
      ("auth_username is set but auth_password is not — set both (or neither); " ++
        "prefer KEEPLIN_AUTH_USERNAME + KEEPLIN_AUTH_PASSWORD")
  | none, some _ => .error
      ("auth_password is set but auth_username is not — set both (or neither); " ++
        "prefer KEEPLIN_AUTH_USERNAME + KEEPLIN_AUTH_PASSWORD")
  | some user, some pass =>
      if user = "" || pass = "" then .error
        ("auth_username and auth_password must both be non-empty when " ++
          "authentication is configured")
      else .ok ()

/-- Whether a request with such a header is served, on either surface. -/
def admits (header : Option Text) : Bool :=
  match config.authUsername, config.authPassword with
  | some user, some pass => verifyBasic header user.toList pass.toList
  | _, _ => true

end Config

/-- A word in upper and lower case as it comes. -/
def AnyCase (word text : Text) : Prop :=
  List.Forall₂ (fun letter c => c = letter ∨ c = letter.toUpper) word text

/-- The base64 of a user and a password. -/
def loginToken (user pass : Text) : Text := Base64.encode (utf8 (user ++ ':' :: pass))

/-- The scheme and the credentials with blanks between and perhaps around them. -/
def IsLogin (header user pass : Text) : Prop :=
  ∃ lead scheme gap trail, header = lead ++ (scheme ++ (gap ++ (loginToken user pass ++ trail))) ∧
    (∀ c ∈ lead, isWhiteSpace c = true) ∧ (∀ c ∈ gap, isWhiteSpace c = true) ∧
    (∀ c ∈ trail, isWhiteSpace c = true) ∧ gap ≠ [] ∧ AnyCase "basic".toList scheme

theorem toLower_eq_iff {letter c : Char} (hletter : letter.isLower = true) :
    c.toLower = letter ↔ c = letter ∨ c = letter.toUpper := by
  obtain ⟨hge, hle⟩ := Bool.and_eq_true_iff.mp hletter
  have hlow : 97 ≤ letter.toNat := of_decide_eq_true hge
  have hhigh : letter.toNat ≤ 122 := of_decide_eq_true hle
  have hbounds : letter.val ≥ 'a'.val ∧ letter.val ≤ 'z'.val := ⟨hlow, hhigh⟩
  have hcase : (c.val ≥ 'A'.val ∧ c.val ≤ 'Z'.val) ↔ 65 ≤ c.toNat ∧ c.toNat ≤ 90 := Iff.rfl
  delta Char.toLower Char.toUpper
  rw [dif_pos hbounds]
  split
  · next hupper =>
      rw [hcase] at hupper
      simp only [Char.ext_iff, ← UInt32.toNat_inj, UInt32.toNat_add, UInt32.toNat_sub]
      simp
      omega
  · next hother =>
      rw [hcase] at hother
      simp only [Char.ext_iff, ← UInt32.toNat_inj, UInt32.toNat_add, UInt32.toNat_sub]
      simp
      omega

/-- Letters are compared as one case of a word in lower case. -/
theorem eqIgnoreAsciiCase_iff {word text : Text} (hword : ∀ letter ∈ word, letter.isLower = true) :
    eqIgnoreAsciiCase text word = true ↔ AnyCase word text := by
  rw [eqIgnoreAsciiCase, decide_eq_true_eq, AnyCase]
  induction word generalizing text with
  | nil => rw [List.map_nil, List.map_eq_nil_iff, List.forall₂_nil_left_iff]
  | cons letter word ih =>
      obtain ⟨hletter, hword⟩ := List.forall_mem_cons.mp hword
      have hsame : letter.toLower = letter := (toLower_eq_iff hletter).mpr (.inl rfl)
      cases text with
      | nil => simp
      | cons c text =>
          rw [List.map_cons, List.map_cons, List.cons_eq_cons, hsame, toLower_eq_iff hletter,
            ih hword, List.forall₂_cons]

theorem foldl_and_eq {pairs : List (UInt8 × UInt8)} {start : Bool} :
    pairs.foldl (fun same pair => same && pair.1 == pair.2) start = true ↔
      start = true ∧ ∀ pair ∈ pairs, pair.1 = pair.2 := by
  induction pairs generalizing start with
  | nil => simp
  | cons pair pairs ih =>
      rw [List.foldl_cons, ih, Bool.and_eq_true, beq_iff_eq, List.forall_mem_cons, and_assoc]

theorem ctEq_iff {left right : List UInt8} : ctEq left right = true ↔ left = right := by
  rw [ctEq]
  split
  · next hlength => exact iff_of_false Bool.false_ne_true fun heq => hlength (congrArg _ heq)
  · next hlength =>
      rw [foldl_and_eq]
      constructor
      · rintro ⟨-, hpairs⟩
        exact List.forall₂_eq_eq_eq ▸ List.forall₂_iff_zip.mpr
          ⟨not_not.mp hlength, fun hmem => hpairs _ hmem⟩
      · rintro rfl
        exact ⟨rfl, fun pair hpair => (List.forall₂_iff_zip.mp (List.forall₂_refl left)).2 hpair⟩

/-- What holds of the letters of a word in both cases holds of its text. -/
theorem AnyCase.forall {word text : Text} (hcase : AnyCase word text) {good : Char → Prop}
    (hword : ∀ letter ∈ word, good letter ∧ good letter.toUpper) : ∀ c ∈ text, good c := by
  induction hcase with
  | nil => exact fun c hc => absurd hc List.not_mem_nil
  | cons hsame hrest ih =>
      obtain ⟨⟨hlower, hupper⟩, hword⟩ := List.forall_mem_cons.mp hword
      refine List.forall_mem_cons.mpr ⟨?_, ih hword⟩
      rcases hsame with rfl | rfl
      · exact hlower
      · exact hupper

theorem isToken_scheme {scheme : Text} (hscheme : AnyCase "basic".toList scheme) :
    IsToken isWhiteSpace scheme := by
  have hletters : ∀ letter ∈ "basic".toList,
      isWhiteSpace letter = false ∧ isWhiteSpace letter.toUpper = false :=
    List.all_iff_forall_prop.mp (by decide)
  constructor
  · rintro rfl
    exact absurd hscheme.length_eq (by decide)
  · exact hscheme.forall hletters

theorem isToken_loginToken (user pass : Text) : IsToken isWhiteSpace (loginToken user pass) := by
  have halphabet : ∀ c ∈ Base64.alphabet, isWhiteSpace c = false :=
    List.all_iff_forall_prop.mp (by decide)
  constructor
  · intro hnil
    have hdecode : Base64.decode (loginToken user pass) = some (utf8 (user ++ ':' :: pass)) :=
      Base64.decode_encode _
    rw [hnil] at hdecode
    have hempty : utf8 (user ++ ':' :: pass) = utf8 [] := (Option.some.inj hdecode).symm
    exact absurd (utf8_inj.mp hempty) (by simp)
  · intro c hc
    rcases Base64.mem_encode hc with hsymbol | rfl
    · exact halphabet c hsymbol
    · decide

theorem isLogin_iff {header user pass : Text} :
    IsLogin header user pass ↔ ∃ scheme, tokens isWhiteSpace header =
      [scheme, loginToken user pass] ∧ eqIgnoreAsciiCase scheme "basic".toList = true := by
  have hlower : ∀ letter ∈ "basic".toList, letter.isLower = true :=
    List.all_iff_forall_prop.mp (by decide)
  constructor
  · rintro ⟨lead, scheme, gap, trail, hheader, hlead, hgap, htrail, hne, hscheme⟩
    refine ⟨scheme, ?_, (eqIgnoreAsciiCase_iff hlower).mpr hscheme⟩
    exact tokens_eq_pair_iff.mpr ⟨lead, gap, trail, hheader, hlead, hgap, htrail, hne,
      isToken_scheme hscheme, isToken_loginToken user pass⟩
  · rintro ⟨scheme, htokens, hscheme⟩
    obtain ⟨lead, gap, trail, hheader, hlead, hgap, htrail, hne, -, -⟩ :=
      tokens_eq_pair_iff.mp htokens
    exact ⟨lead, scheme, gap, trail, hheader, hlead, hgap, htrail, hne,
      (eqIgnoreAsciiCase_iff hlower).mp hscheme⟩

section

variable {user pass : Text}

/-- The credentials of a token, cut at the first colon. -/
theorem verifyBasic_pair {header scheme encoded : Text} (huser : user ≠ []) (hpass : pass ≠ [])
    (htokens : tokens isWhiteSpace header = [scheme, encoded])
    (hscheme : eqIgnoreAsciiCase scheme "basic".toList = true) :
    verifyBasic (some header) user pass = true ↔
      ':' ∉ user ∧ encoded = loginToken user pass := by
  have hconfigured : (user.isEmpty || pass.isEmpty) = false := by simp [huser, hpass]
  simp only [verifyBasic, hconfigured, htokens, hscheme, Bool.not_true, Bool.false_eq_true,
    if_false]
  constructor
  · intro haccepted
    split at haccepted
    · contradiction
    · next decoded hdecoded =>
        split at haccepted
        · contradiction
        · next creds hcreds =>
            split at haccepted
            · contradiction
            · next front back hsplit =>
                rw [Bool.and_eq_true, ctEq_iff, ctEq_iff, utf8_inj, utf8_inj] at haccepted
                obtain ⟨rfl, rfl⟩ := haccepted
                obtain ⟨rfl, hcolon⟩ := splitFirst_eq_some hsplit
                rw [decode_eq_ok_iff.mp hcreds] at hdecoded
                exact ⟨hcolon, Base64.decode_eq_some_iff.mp hdecoded⟩
  · rintro ⟨hcolon, rfl⟩
    have hdecoded : Base64.decode (loginToken user pass) = some (utf8 (user ++ ':' :: pass)) :=
      Base64.decode_encode _
    simp only [hdecoded, decode_utf8, splitFirst_append hcolon pass, Bool.and_eq_true]
    exact ⟨ctEq_iff.mpr rfl, ctEq_iff.mpr rfl⟩

/-- A header that is accepted has two tokens, of which the first names the scheme. -/
theorem tokens_of_verifyBasic {header : Text}
    (haccepted : verifyBasic (some header) user pass = true) :
    ∃ scheme encoded, tokens isWhiteSpace header = [scheme, encoded] ∧
      eqIgnoreAsciiCase scheme "basic".toList = true := by
  rw [verifyBasic] at haccepted
  split at haccepted
  · contradiction
  · split at haccepted
    · next scheme encoded htokens =>
        split at haccepted
        · contradiction
        · next hscheme => exact ⟨scheme, encoded, htokens, by simpa using hscheme⟩
    · contradiction

/-- A header is accepted when it has the login, of a user whose name has no colon. -/
theorem verifyBasic_iff {header : Option Text} (huser : user ≠ []) (hpass : pass ≠ []) :
    verifyBasic header user pass = true ↔
      ':' ∉ user ∧ ∃ text, header = some text ∧ IsLogin text user pass := by
  constructor
  · intro haccepted
    cases header with
    | none =>
        rw [verifyBasic] at haccepted
        split at haccepted <;> contradiction
    | some text =>
        obtain ⟨scheme, encoded, htokens, hscheme⟩ := tokens_of_verifyBasic haccepted
        obtain ⟨hcolon, rfl⟩ := (verifyBasic_pair huser hpass htokens hscheme).mp haccepted
        exact ⟨hcolon, text, rfl, isLogin_iff.mpr ⟨scheme, htokens, hscheme⟩⟩
  · rintro ⟨hcolon, text, rfl, hlogin⟩
    obtain ⟨scheme, htokens, hscheme⟩ := isLogin_iff.mp hlogin
    exact (verifyBasic_pair huser hpass htokens hscheme).mpr ⟨hcolon, rfl⟩

/-- There is a login for every user and password. -/
theorem isLogin_header (user pass : Text) :
    IsLogin ("Basic ".toList ++ loginToken user pass) user pass := by
  refine ⟨[], "Basic".toList, [' '], [], ?_, ?_, ?_, ?_, List.cons_ne_nil _ _, ?_⟩
  · simp
  · simp
  · exact List.forall_mem_singleton.mpr rfl
  · simp
  · rw [← eqIgnoreAsciiCase_iff (List.all_iff_forall_prop.mp (by decide))]
    decide

end

namespace Config

variable {config : Config} {user pass : String}

theorem ne_empty_of_validateAuth (huser : config.authUsername = some user)
    (hpass : config.authPassword = some pass) (hvalid : config.validateAuth = .ok ()) :
    user.toList ≠ [] ∧ pass.toList ≠ [] := by
  rw [validateAuth, huser, hpass] at hvalid
  simp only at hvalid
  split at hvalid
  · contradiction
  · next hnonempty => simpa [not_or] using hnonempty

/-- A daemon whose user has a colon in the name serves nobody. -/
theorem admits_of_colon (huser : config.authUsername = some user)
    (hpass : config.authPassword = some pass) (hvalid : config.validateAuth = .ok ())
    (hcolon : ':' ∈ user.toList) (header : Option Text) : config.admits header = false := by
  obtain ⟨hne, hne'⟩ := ne_empty_of_validateAuth huser hpass hvalid
  rw [Bool.eq_false_iff, admits, huser, hpass]
  exact fun haccepted => ((verifyBasic_iff hne hne').mp haccepted).1 hcolon

end Config

/-- With credentials that are accepted at the start, the headers that are let in are those with
the login, if and only if the name of the user has no colon. -/
theorem login_exact_iff (config : Config) {user pass : String}
    (huser : config.authUsername = some user) (hpass : config.authPassword = some pass)
    (hvalid : config.validateAuth = .ok ()) :
    (∀ header : Option Text, verifyBasic header user.toList pass.toList = true ↔
      ∃ text, header = some text ∧ IsLogin text user.toList pass.toList) ↔
      ':' ∉ user.toList := by
  obtain ⟨hne, hne'⟩ := Config.ne_empty_of_validateAuth huser hpass hvalid
  constructor
  · intro hexact
    have hlogin := (hexact _).mpr ⟨_, rfl, isLogin_header user.toList pass.toList⟩
    exact ((verifyBasic_iff hne hne').mp hlogin).1
  · intro hcolon header
    rw [verifyBasic_iff hne hne']
    exact and_iff_right hcolon

namespace AuthWitness

def config (user : String) : Config where
  mode := .offline
  serverUrl := []
  grpcAddr := "127.0.0.1:50051".toList
  httpAddr := none
  authUsername := some user
  authPassword := some "s3cr3t"

theorem login_alice :
    verifyBasic (some ("Basic ".toList ++ loginToken "alice".toList "s3cr3t".toList))
      "alice".toList "s3cr3t".toList = true ∧
    ¬ verifyBasic none "alice".toList "s3cr3t".toList = true := by
  have hexact := (login_exact_iff (config "alice") rfl rfl rfl).mpr (by decide)
  constructor
  · exact (hexact _).mpr ⟨_, rfl, isLogin_header _ _⟩
  · intro haccepted
    obtain ⟨text, hnone, -⟩ := (hexact none).mp haccepted
    exact absurd hnone (by simp)

/-- The header of a user with a colon in the name, which is refused. -/
theorem not_login_exact :
    ¬ ∀ (config : Config) (user pass : String), config.authUsername = some user →
      config.authPassword = some pass → config.validateAuth = .ok () →
      ∀ header : Option Text, verifyBasic header user.toList pass.toList = true ↔
        ∃ text, header = some text ∧ IsLogin text user.toList pass.toList := by
  intro hall
  have hlogin := (hall (config "a:b") "a:b" "s3cr3t" rfl rfl rfl _).mpr
    ⟨_, rfl, isLogin_header "a:b".toList "s3cr3t".toList⟩
  exact ((verifyBasic_iff (by decide) (by decide)).mp hlogin).1 (by decide)

end AuthWitness

end Keeplin
