/-
JSON values and codecs of what is written as one.  A record is an object that is read member
by member; a member that no field asks for is passed over.  A text of JSON is kept as the
value it stands for.
-/
import Mathlib.Data.List.Basic

namespace Json

/-- The numbers are counts, which is all that is written here. -/
inductive Value where
  | null
  | bool (value : Bool)
  | number (value : Nat)
  | string (text : String)
  | array (items : List Value)
  | object (members : List (String × Value))

namespace Value

/-- The member of an object with a name. -/
def get (value : Value) (name : String) : Option Value :=
  match value with
  | .object members => (members.find? fun found => found.1 = name).map Prod.snd
  | _ => none

def asStr : Value → Option String
  | .string text => some text
  | _ => none

/-- Give an object another member, in place of one it has of that name. -/
def set (value : Value) (name : String) (given : Value) : Value :=
  match value with
  | .object members => .object (members.filter (fun found => found.1 ≠ name) ++ [(name, given)])
  | other => other

@[simp] theorem get_object_nil (name : String) : (object []).get name = none := rfl

@[simp] theorem get_object_cons (key name : String) (value : Value)
    (rest : List (String × Value)) :
    (object ((key, value) :: rest)).get name =
      if key = name then some value else (object rest).get name := by
  simp only [get, List.find?_cons]
  split <;> split <;> simp_all

@[simp] theorem asStr_string (text : String) : (string text).asStr = some text := rfl

theorem get_object_append (front back : List (String × Value)) (name : String) :
    (object (front ++ back)).get name =
      ((object front).get name).or ((object back).get name) := by
  simp only [get, List.find?_append, Option.map_or]

/-- The other members are read as before. -/
theorem get_set_of_ne {key name : String} (hne : key ≠ name) (value given : Value) :
    (value.set key given).get name = value.get name := by
  cases value with
  | object members =>
      rw [set, get_object_append, get_object_cons, if_neg hne, get_object_nil, Option.or_none]
      simp only [get, List.find?_filter]
      congr 2
      funext found
      by_cases hfound : found.1 = name
      · simp [hfound, Ne.symm hne]
      · simp [hfound]
  | _ => rfl

theorem get_set_self (members : List (String × Value)) (name : String) (given : Value) :
    ((object members).set name given).get name = some given := by
  have hnone : (object (members.filter fun found => found.1 ≠ name)).get name = none := by
    simp [get]
  rw [set, get_object_append, hnone, get_object_cons, if_pos rfl]
  rfl

end Value

/-- How the values of a type are written and read again. -/
structure Codec (A : Type) where
  toValue : A → Value
  fromValue : Value → Option A
  roundTrip : ∀ item, fromValue (toValue item) = some item
  notNull : ∀ item, toValue item ≠ .null

/-- How a member of an object is written and read, where it may be missing. -/
structure Field (A : Type) where
  write : A → Value
  read : Option Value → Option A
  roundTrip : ∀ item, read (some (write item)) = some item

attribute [simp] Codec.roundTrip Field.roundTrip

namespace Codec

variable {A B : Type}

def string : Codec String where
  toValue := .string
  fromValue := Value.asStr
  roundTrip _ := rfl
  notNull _ := Value.noConfusion

def bool : Codec Bool where
  toValue := .bool
  fromValue
    | .bool value => some value
    | _ => none
  roundTrip _ := rfl
  notNull _ := Value.noConfusion

def number : Codec Nat where
  toValue := .number
  fromValue
    | .number value => some value
    | _ => none
  roundTrip _ := rfl
  notNull _ := Value.noConfusion

/-- What is written as a text. -/
def ofText (text : A → String) (parse : String → Option A)
    (hparse : ∀ item, parse (text item) = some item) : Codec A where
  toValue item := .string (text item)
  fromValue value := value.asStr.bind parse
  roundTrip item := hparse item
  notNull _ := Value.noConfusion

def pair (first : Codec A) (second : Codec B) : Codec (A × B) where
  toValue item := .array [first.toValue item.1, second.toValue item.2]
  fromValue
    | .array [left, right] => do
        let left ← first.fromValue left
        let right ← second.fromValue right
        return (left, right)
    | _ => none
  roundTrip item := by simp
  notNull _ := Value.noConfusion

theorem mapM_map {item : A → B} {read : B → Option A} (hread : ∀ a, read (item a) = some a)
    (list : List A) : (list.map item).mapM read = some list := by
  induction list with
  | nil => rfl
  | cons head rest ih => simp [hread, ih]

def list (codec : Codec A) : Codec (List A) where
  toValue items := .array (items.map codec.toValue)
  fromValue
    | .array values => values.mapM codec.fromValue
    | _ => none
  roundTrip items := mapM_map codec.roundTrip items
  notNull _ := Value.noConfusion

/-- A member that must be there. -/
def required (codec : Codec A) : Field A where
  write := codec.toValue
  read found := found.bind codec.fromValue
  roundTrip item := codec.roundTrip item

/-- A member that has a default when it is missing. -/
def orDefault (codec : Codec A) (default : A) : Field A where
  write := codec.toValue
  read
    | none => some default
    | some value => codec.fromValue value
  roundTrip item := codec.roundTrip item

/-- A member that is missing or null stands for its default. -/
def readNullable (default : A) (read : Value → Option A) : Option Value → Option A
  | none => some default
  | some .null => some default
  | some value => read value

theorem readNullable_of_ne_null {value : Value} (hvalue : value ≠ .null) (default : A)
    (read : Value → Option A) : readNullable default read (some value) = read value := by
  cases value with
  | null => exact absurd rfl hvalue
  | _ => rfl

def orNull (codec : Codec A) (default : A) : Field A where
  write := codec.toValue
  read := readNullable default codec.fromValue
  roundTrip item := by
    rw [readNullable_of_ne_null (codec.notNull item), codec.roundTrip]

def optional (codec : Codec A) : Field (Option A) where
  write
    | none => .null
    | some item => codec.toValue item
  read := readNullable none fun value => (codec.fromValue value).map some
  roundTrip
    | none => rfl
    | some item => by
        rw [readNullable_of_ne_null (codec.notNull item), codec.roundTrip]
        rfl

@[simp] theorem read_optional_none (codec : Codec A) : codec.optional.read none = some none := rfl

end Codec

end Json
