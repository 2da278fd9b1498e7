/-
Base64 with the standard alphabet and its padding.  Three bytes are written as four
symbols; one or two bytes that are left over are padded.  Only what is written so is
read: the bits behind the last byte are zero and nothing comes after the padding.
-/
import Mathlib.Data.List.Basic

namespace Base64

def alphabet : List Char :=
  "ABCDEFGHIJKLMNOPQRSTUVWXYZabcdefghijklmnopqrstuvwxyz0123456789+/".toList

def symbol (number : Nat) : Char := alphabet[number]?.getD '='

def value (c : Char) : Option Nat := alphabet.idxOf? c

/-- A byte of a number that is known to be one. -/
def byte (number : Nat) : UInt8 := UInt8.ofNat number

def encode : List UInt8 → List Char
  | [] => []
  | [a] => [symbol (a.toNat / 4), symbol (a.toNat % 4 * 16), '=', '=']
  | [a, b] =>
      [symbol (a.toNat / 4), symbol (a.toNat % 4 * 16 + b.toNat / 16),
        symbol (b.toNat % 16 * 4), '=']
  | a :: b :: c :: rest =>
      symbol (a.toNat / 4) :: symbol (a.toNat % 4 * 16 + b.toNat / 16) ::
        symbol (b.toNat % 16 * 4 + c.toNat / 64) :: symbol (c.toNat % 64) :: encode rest

/-- The bytes of a last group, which is padded. -/
def decodePadded (first second third : Char) : Option (List UInt8) := do
  let w ← value first
  let x ← value second
  if third = '=' then
    if x % 16 = 0 then some [byte (w * 4 + x / 16)] else none
  else
    let y ← value third
    if y % 4 = 0 then some [byte (w * 4 + x / 16), byte (x % 16 * 16 + y / 4)] else none

def decodeGroup (first second third fourth : Char) : Option (List UInt8) := do
  let w ← value first
  let x ← value second
  let y ← value third
  let z ← value fourth
  return [byte (w * 4 + x / 16), byte (x % 16 * 16 + y / 4), byte (y % 4 * 64 + z)]

def decode : List Char → Option (List UInt8)
  | [] => some []
  | first :: second :: third :: fourth :: rest =>
      if fourth = '=' then
        if rest = [] then decodePadded first second third else none
      else do
        let group ← decodeGroup first second third fourth
        let more ← decode rest
        return group ++ more
  | _ => none

theorem nodup_alphabet : alphabet.Nodup := by decide

theorem length_alphabet : alphabet.length = 64 := by decide

/-- A symbol stands for its place in the alphabet and for no other number. -/
theorem value_eq_some_iff {c : Char} {number : Nat} :
    value c = some number ↔ number < 64 ∧ c = symbol number := by
  rw [value, List.idxOf?, List.findIdx?_eq_some_iff_getElem]
  constructor
  · rintro ⟨hlt, hfound, -⟩
    refine ⟨length_alphabet ▸ hlt, ?_⟩
    rw [symbol, List.getElem?_eq_getElem hlt, Option.getD_some]
    exact (eq_of_beq hfound).symm
  · rintro ⟨hnumber, rfl⟩
    have hlt : number < alphabet.length := length_alphabet.symm ▸ hnumber
    rw [symbol, List.getElem?_eq_getElem hlt, Option.getD_some]
    refine ⟨hlt, beq_self_eq_true _, fun other hother hsame => ?_⟩
    have hsame := (List.getElem_inj nodup_alphabet).mp (eq_of_beq hsame)
    omega

theorem value_symbol {number : Nat} (hnumber : number < 64) :
    value (symbol number) = some number :=
  value_eq_some_iff.mpr ⟨hnumber, rfl⟩

theorem symbol_mem {number : Nat} (hnumber : number < 64) : symbol number ∈ alphabet := by
  rw [symbol, List.getElem?_eq_getElem (length_alphabet.symm ▸ hnumber), Option.getD_some]
  exact List.getElem_mem _

theorem symbol_ne_pad {number : Nat} (hnumber : number < 64) : symbol number ≠ '=' := by
  intro hpad
  have hmem := symbol_mem hnumber
  rw [hpad] at hmem
  exact absurd hmem (by decide)

theorem byte_eq {number : Nat} {a : UInt8} (hnumber : number = a.toNat) : byte number = a := by
  rw [hnumber]
  exact UInt8.ofNat_toNat

theorem toNat_byte {number : Nat} (hnumber : number < 256) : (byte number).toNat = number :=
  UInt8.toNat_ofNat_of_lt' hnumber

theorem decodePadded_one (a : UInt8) :
    decodePadded (symbol (a.toNat / 4)) (symbol (a.toNat % 4 * 16)) '=' = some [a] := by
  have ha := a.toNat_lt
  have hbyte : byte (a.toNat / 4 * 4 + a.toNat % 4 * 16 / 16) = a := byte_eq (by omega)
  have hrest : a.toNat % 4 * 16 % 16 = 0 := by omega
  rw [decodePadded, value_symbol (by omega), value_symbol (by omega)]
  simp only [Option.bind_eq_bind, Option.bind_some, if_pos, hrest, hbyte]

theorem decodePadded_two (a b : UInt8) :
    decodePadded (symbol (a.toNat / 4)) (symbol (a.toNat % 4 * 16 + b.toNat / 16))
      (symbol (b.toNat % 16 * 4)) = some [a, b] := by
  have ha := a.toNat_lt
  have hb := b.toNat_lt
  have hfirst : byte (a.toNat / 4 * 4 + (a.toNat % 4 * 16 + b.toNat / 16) / 16) = a :=
    byte_eq (by omega)
  have hsecond : byte ((a.toNat % 4 * 16 + b.toNat / 16) % 16 * 16 + b.toNat % 16 * 4 / 4) = b :=
    byte_eq (by omega)
  have hrest : b.toNat % 16 * 4 % 4 = 0 := by omega
  have hpad : symbol (b.toNat % 16 * 4) ≠ '=' := symbol_ne_pad (by omega)
  rw [decodePadded, value_symbol (by omega), value_symbol (by omega), value_symbol (by omega)]
  simp only [Option.bind_eq_bind, Option.bind_some, if_neg hpad, hrest, if_pos, hfirst, hsecond]

theorem decodeGroup_three (a b c : UInt8) :
    decodeGroup (symbol (a.toNat / 4)) (symbol (a.toNat % 4 * 16 + b.toNat / 16))
      (symbol (b.toNat % 16 * 4 + c.toNat / 64)) (symbol (c.toNat % 64)) = some [a, b, c] := by
  have ha := a.toNat_lt
  have hb := b.toNat_lt
  have hc := c.toNat_lt
  have hfirst : byte (a.toNat / 4 * 4 + (a.toNat % 4 * 16 + b.toNat / 16) / 16) = a :=
    byte_eq (by omega)
  have hsecond : byte ((a.toNat % 4 * 16 + b.toNat / 16) % 16 * 16 +
      (b.toNat % 16 * 4 + c.toNat / 64) / 4) = b := byte_eq (by omega)
  have hthird : byte ((b.toNat % 16 * 4 + c.toNat / 64) % 4 * 64 + c.toNat % 64) = c :=
    byte_eq (by omega)
  rw [decodeGroup, value_symbol (by omega), value_symbol (by omega), value_symbol (by omega),
    value_symbol (by omega)]
  simp only [Option.bind_eq_bind, Option.bind_some, hfirst, hsecond, hthird]
  rfl

/-- What is written is read. -/
theorem decode_encode (bytes : List UInt8) : decode (encode bytes) = some bytes := by
  fun_induction encode bytes with
  | case1 => rfl
  | case2 a => rw [decode, if_pos rfl, if_pos rfl, decodePadded_one]
  | case3 a b => rw [decode, if_pos rfl, if_pos rfl, decodePadded_two]
  | case4 a b c rest ih =>
      have hc := c.toNat_lt
      rw [decode, if_neg (symbol_ne_pad (by omega)), decodeGroup_three, ih]
      rfl

/-- The bytes of a padded group are written as the group. -/
theorem encode_of_decodePadded {first second third : Char} {bytes : List UInt8}
    (hdecode : decodePadded first second third = some bytes) :
    encode bytes = [first, second, third, '='] := by
  obtain ⟨w, hfirst, hsome⟩ := Option.bind_eq_some_iff.mp hdecode
  obtain ⟨x, hsecond, hbytes⟩ := Option.bind_eq_some_iff.mp hsome
  obtain ⟨hw, rfl⟩ := value_eq_some_iff.mp hfirst
  obtain ⟨hx, rfl⟩ := value_eq_some_iff.mp hsecond
  split at hbytes
  · next hpad =>
      split at hbytes
      · next hrest =>
          obtain rfl := Option.some.inj hbytes
          have hfirst : (w * 4 + x / 16) / 4 = w := by omega
          have hsecond : (w * 4 + x / 16) % 4 * 16 = x := by omega
          rw [encode, toNat_byte (by omega), hfirst, hsecond, hpad]
      · contradiction
  · obtain ⟨y, hthird, hpair⟩ := Option.bind_eq_some_iff.mp hbytes
    obtain ⟨hy, rfl⟩ := value_eq_some_iff.mp hthird
    split at hpair
    · next hrest =>
        obtain rfl := Option.some.inj hpair
        have hfirst : (w * 4 + x / 16) / 4 = w := by omega
        have hsecond : (w * 4 + x / 16) % 4 * 16 + (x % 16 * 16 + y / 4) / 16 = x := by omega
        have hthird : (x % 16 * 16 + y / 4) % 16 * 4 = y := by omega
        rw [encode, toNat_byte (by omega), toNat_byte (by omega), hfirst, hsecond, hthird]
    · contradiction

theorem encode_of_decodeGroup {first second third fourth : Char} {group : List UInt8}
    (hdecode : decodeGroup first second third fourth = some group) (more : List UInt8) :
    encode (group ++ more) = first :: second :: third :: fourth :: encode more := by
  obtain ⟨w, hvalue, hthree⟩ := Option.bind_eq_some_iff.mp hdecode
  obtain ⟨hw, rfl⟩ := value_eq_some_iff.mp hvalue
  obtain ⟨x, hvalue, htwo⟩ := Option.bind_eq_some_iff.mp hthree
  obtain ⟨hx, rfl⟩ := value_eq_some_iff.mp hvalue
  obtain ⟨y, hvalue, hone⟩ := Option.bind_eq_some_iff.mp htwo
  obtain ⟨hy, rfl⟩ := value_eq_some_iff.mp hvalue
  obtain ⟨z, hvalue, hbytes⟩ := Option.bind_eq_some_iff.mp hone
  obtain ⟨hz, rfl⟩ := value_eq_some_iff.mp hvalue
  obtain rfl := Option.some.inj hbytes
  have hfirst : (w * 4 + x / 16) / 4 = w := by omega
  have hsecond : (w * 4 + x / 16) % 4 * 16 + (x % 16 * 16 + y / 4) / 16 = x := by omega
  have hthird : (x % 16 * 16 + y / 4) % 16 * 4 + (y % 4 * 64 + z) / 64 = y := by omega
  have hfourth : (y % 4 * 64 + z) % 64 = z := by omega
  rw [List.cons_append, List.cons_append, List.cons_append, List.nil_append, encode,
    toNat_byte (by omega), toNat_byte (by omega), toNat_byte (by omega), hfirst, hsecond, hthird,
    hfourth]

/-- What is read was written so. -/
theorem encode_of_decode {text : List Char} {bytes : List UInt8}
    (hdecode : decode text = some bytes) : encode bytes = text := by
  fun_induction decode text generalizing bytes with
  | case1 =>
      obtain rfl := Option.some.inj hdecode
      rfl
  | case2 first second third => exact encode_of_decodePadded hdecode
  | case3 => contradiction
  | case4 first second third fourth rest hfourth ih =>
      obtain ⟨group, hgroup, hsome⟩ := Option.bind_eq_some_iff.mp hdecode
      obtain ⟨more, hmore, hbytes⟩ := Option.bind_eq_some_iff.mp hsome
      obtain rfl := Option.some.inj hbytes
      rw [encode_of_decodeGroup hgroup, ih hmore]
  | case5 => contradiction

/-- The texts that are read are those that are written. -/
theorem decode_eq_some_iff {text : List Char} {bytes : List UInt8} :
    decode text = some bytes ↔ text = encode bytes := by
  constructor
  · exact fun hdecode => (encode_of_decode hdecode).symm
  · rintro rfl
    exact decode_encode bytes

/-- Every character of a text is a symbol or padding. -/
theorem mem_encode {bytes : List UInt8} {c : Char} (hmem : c ∈ encode bytes) :
    c ∈ alphabet ∨ c = '=' := by
  fun_induction encode bytes with
  | case1 => contradiction
  | case2 a =>
      have ha := a.toNat_lt
      simp only [List.mem_cons, List.not_mem_nil, or_false] at hmem
      rcases hmem with rfl | rfl | rfl | rfl
      · exact .inl (symbol_mem (by omega))
      · exact .inl (symbol_mem (by omega))
      · exact .inr rfl
      · exact .inr rfl
  | case3 a b =>
      have ha := a.toNat_lt
      have hb := b.toNat_lt
      simp only [List.mem_cons, List.not_mem_nil, or_false] at hmem
      rcases hmem with rfl | rfl | rfl | rfl
      · exact .inl (symbol_mem (by omega))
      · exact .inl (symbol_mem (by omega))
      · exact .inl (symbol_mem (by omega))
      · exact .inr rfl
  | case4 a b c rest ih =>
      have ha := a.toNat_lt
      have hb := b.toNat_lt
      have hc := c.toNat_lt
      simp only [List.mem_cons] at hmem
      rcases hmem with rfl | rfl | rfl | rfl | hrest
      · exact .inl (symbol_mem (by omega))
      · exact .inl (symbol_mem (by omega))
      · exact .inl (symbol_mem (by omega))
      · exact .inl (symbol_mem (by omega))
      · exact ih hrest

example : encode "Man".toUTF8.data.toList = "TWFu".toList := by decide

end Base64
