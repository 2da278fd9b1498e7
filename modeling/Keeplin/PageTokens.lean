/-
The texts of ids and of page tokens.  A token is the key of an item, a bar and
the id; it is read back up to the first bar.
-/
import Keeplin.Rfc3339
import Keeplin.Models

namespace Keeplin

/-- An id has 128 bits. -/
def IsUuid (id : Uuid) : Prop := id < 2 ^ 128

instance (id : Uuid) : Decidable (IsUuid id) := inferInstanceAs (Decidable (id < _))

def uuidLayout : List (Nat × Text) := [(8, ['-']), (4, ['-']), (4, ['-']), (4, ['-']), (12, [])]

def uuidParts (id : Uuid) : List Nat := parts [16 ^ 24, 16 ^ 20, 16 ^ 16, 16 ^ 12] id

/-- The hyphenated form. -/
def uuidText (id : Uuid) : Text := layOut Nat.digitChar 16 uuidLayout (uuidParts id)

def hexValue (c : Char) : Option Nat :=
  if '0' ≤ c ∧ c ≤ '9' then some (c.toNat - '0'.toNat)
  else if 'a' ≤ c ∧ c ≤ 'f' then some (c.toNat - 'a'.toNat + 10)
  else if 'A' ≤ c ∧ c ≤ 'F' then some (c.toNat - 'A'.toNat + 10)
  else none

def parseHex (text : Text) : Option Nat :=
  text.foldlM (fun value c => (hexValue c).map fun digit => 16 * value + digit) 0

/-- The text without what stands between the digits of a layout. -/
def readLayout : List (Nat × Text) → Text → Option Text
  | [], text => if text = [] then some [] else none
  | (width, after) :: layout, text =>
      if after.isPrefixOf (text.drop width) then
        (readLayout layout (text.drop (width + after.length))).map fun rest =>
          text.take width ++ rest
      else none

def parseHyphenated (text : Text) : Option Uuid := (readLayout uuidLayout text).bind parseHex

/-- An id in one of its four forms, which differ in length. -/
def parseUuid (text : Text) : Option Uuid :=
  if text.length = 32 then parseHex text
  else if text.length = 36 then parseHyphenated text
  else if text.length = 38 ∧ text.head? = some '{' ∧ text.getLast? = some '}' then
    parseHyphenated text.tail.dropLast
  else if text.length = 45 ∧ "urn:uuid:".toList.isPrefixOf text then
    parseHyphenated (text.drop 9)
  else none

theorem hexDigit_lt_iff : ∀ {a b : Nat}, a < 16 → b < 16 →
    (Nat.digitChar a < Nat.digitChar b ↔ a < b) := by
  have hall : ∀ a < 16, ∀ b < 16, (Nat.digitChar a < Nat.digitChar b ↔ a < b) := by decide
  exact fun {a b} ha hb => hall a ha b hb

theorem fits_uuidParts {id : Nat} (hid : IsUuid id) : Fits 16 uuidLayout (uuidParts id) := by
  have hid : id < 340282366920938463463374607431768211456 := hid
  refine .cons ?_ (.cons ?_ (.cons ?_ (.cons ?_ (.cons ?_ .nil)))) <;> simp only <;> omega

/-- The texts of ids are in the order of the ids. -/
theorem uuidText_lt_iff {id other : Uuid} (hid : IsUuid id) (hother : IsUuid other) :
    uuidText id < uuidText other ↔ id < other :=
  (layOut_lt_iff hexDigit_lt_iff (by decide) (fits_uuidParts hid) (fits_uuidParts hother)).trans
    parts_lt_iff

theorem uuidText_inj {id other : Uuid} (hid : IsUuid id) (hother : IsUuid other)
    (hsame : uuidText id = uuidText other) : id = other := by
  have hnot : ¬ id < other := fun hlt =>
    absurd ((uuidText_lt_iff hid hother).mpr hlt) (hsame ▸ lt_irrefl _)
  have hnot' : ¬ other < id := fun hlt =>
    absurd ((uuidText_lt_iff hother hid).mpr hlt) (hsame ▸ lt_irrefl _)
  exact Nat.le_antisymm (Nat.le_of_not_lt hnot') (Nat.le_of_not_lt hnot)

theorem length_uuidText {id : Uuid} (hid : IsUuid id) : (uuidText id).length = 36 :=
  length_layOut Nat.digitChar (fits_uuidParts hid)

theorem hexValue_digitChar : ∀ value < 16, hexValue (Nat.digitChar value) = some value := by decide

theorem foldlM_digits (width number start : Nat) :
    (digits Nat.digitChar 16 width number).foldlM
        (fun value c => (hexValue c).map fun digit => 16 * value + digit) start =
      some (start * 16 ^ width + number % 16 ^ width) := by
  induction width generalizing number with
  | zero => simp [digits, Nat.mod_one]
  | succ width ih =>
      rw [digits, List.foldlM_append, ih]
      simp only [Option.bind_eq_bind, Option.bind_some, List.foldlM_cons, List.foldlM_nil,
        hexValue_digitChar _ (Nat.mod_lt number (by decide : 0 < 16)), Option.map_some,
        Option.pure_def]
      have hmod := Nat.mod_mul (x := number) (a := 16) (b := 16 ^ width)
      have hshift := Nat.mul_left_comm start 16 (16 ^ width)
      rw [Nat.pow_succ', hmod]
      congr 1
      omega

theorem readLayout_layOut {layout : List (Nat × Text)} {numbers : List Nat}
    (hlength : layout.length = numbers.length) :
    readLayout layout (layOut Nat.digitChar 16 layout numbers) =
      some ((layout.zip numbers).flatMap fun entry =>
        digits Nat.digitChar 16 entry.1.1 entry.2) := by
  induction layout generalizing numbers with
  | nil => rfl
  | cons slot layout ih =>
      obtain ⟨number, numbers, rfl⟩ := List.exists_cons_of_length_eq_add_one hlength.symm
      have hwidth := length_digits Nat.digitChar 16 slot.1 number
      have hdrop : (layOut Nat.digitChar 16 (slot :: layout) (number :: numbers)).drop slot.1 =
          slot.2 ++ layOut Nat.digitChar 16 layout numbers := by
        rw [layOut, List.drop_left' hwidth]
      have hrest : (layOut Nat.digitChar 16 (slot :: layout) (number :: numbers)).drop
          (slot.1 + slot.2.length) = layOut Nat.digitChar 16 layout numbers := by
        rw [← List.drop_drop, hdrop, List.drop_left]
      have htake : (layOut Nat.digitChar 16 (slot :: layout) (number :: numbers)).take slot.1 =
          digits Nat.digitChar 16 slot.1 number := by
        rw [layOut, List.take_left' hwidth]
      rw [readLayout, hdrop, if_pos (by simp), hrest, ih (Nat.succ.inj hlength), htake]
      rfl

/-- The text of an id is read back. -/
theorem parseUuid_uuidText {id : Nat} (hid : IsUuid id) : parseUuid (uuidText id) = some id := by
  have hlength := length_uuidText hid
  have hid : id < 340282366920938463463374607431768211456 := hid
  rw [parseUuid, hlength, if_neg (by decide), if_pos rfl, parseHyphenated, uuidText,
    readLayout_layOut (by rfl)]
  simp only [uuidLayout, uuidParts, parts, List.zip_cons_cons, List.zip_nil_left,
    List.flatMap_cons, List.flatMap_nil, List.append_nil, Option.bind_some, parseHex,
    List.foldlM_append, foldlM_digits, Option.bind_eq_bind]
  congr 1
  omega

/-- The text before the first bar and the text after it. -/
def splitOnce : Text → Option (Text × Text)
  | [] => none
  | c :: rest =>
      if c = '|' then some ([], rest)
      else (splitOnce rest).map fun found => (c :: found.1, found.2)

theorem splitOnce_append {front : Text} (hfront : '|' ∉ front) (rest : Text) :
    splitOnce (front ++ '|' :: rest) = some (front, rest) := by
  induction front with
  | nil => rfl
  | cons c front ih =>
      obtain ⟨hc, hfront⟩ := not_or.mp (List.mem_cons.not.mp hfront)
      rw [List.cons_append, splitOnce, if_neg (Ne.symm hc), ih hfront]
      rfl

def pageToken (key : Text) (id : Uuid) : Text := key ++ '|' :: uuidText id

/-- The cursor of the database: the key and the id as texts, both empty where
the token has none. -/
def parseCursor (token : Option Text) : Text × Text :=
  match token with
  | none => ([], [])
  | some cursor => if cursor = [] then ([], []) else (splitOnce cursor).getD ([], [])

theorem parseCursor_pageToken {key : Text} (hkey : '|' ∉ key) (id : Uuid) :
    parseCursor (some (pageToken key id)) = (key, uuidText id) := by
  rw [parseCursor, if_neg (by simp [pageToken]), pageToken, splitOnce_append hkey]
  rfl

/-- The cursor of the files: a token that cannot be read is none. -/
def parseToken (token : Option Text) : Option (Text × Uuid) :=
  (token.bind fun cursor => if cursor = [] then none else splitOnce cursor).bind fun parsed =>
    (parseUuid parsed.2).map fun id => (parsed.1, id)

theorem parseToken_pageToken {key : Text} (hkey : '|' ∉ key) {id : Uuid} (hid : IsUuid id) :
    parseToken (some (pageToken key id)) = some (key, id) := by
  have hnonempty : pageToken key id ≠ [] := by simp [pageToken]
  rw [parseToken, Option.bind_some, if_neg hnonempty, pageToken, splitOnce_append hkey,
    Option.bind_some, parseUuid_uuidText hid, Option.map_some]

end Keeplin
