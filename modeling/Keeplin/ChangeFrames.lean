/-
Changes as they travel between devices: tagged objects, in batches that name the device
they come from.  What is missing of a deletion or an association is filled in when it is
read.
-/
import Keeplin.EntityJson
import Keeplin.Base64
import Mathlib.Logic.Encodable.Basic

namespace Keeplin

open Json

def byteCodec : Codec UInt8 where
  toValue byte := .number byte.toNat
  fromValue
    | .number value => if value < 256 then some (UInt8.ofNat value) else none
    | _ => none
  roundTrip byte := by
    have hbyte : byte.toNat < 256 := UInt8.toNat_lt byte
    simp only [hbyte, if_true, UInt8.ofNat_toNat]
  notNull _ := Value.noConfusion

namespace TextForms

variable (forms : TextForms)

/-- Who deleted or changed something last, and when. -/
structure Stamp where
  instant : DateTime
  vv : VersionVector
  lastWriter : String

def stampMembers (name : String) (instant : DateTime) (vv : VersionVector)
    (lastWriter : String) : List (String × Value) := [
  (name, forms.instant.toValue instant),
  ("vv", (vvCodec.orDefault ∅).write vv),
  ("last_writer", (Codec.string.orDefault "").write lastWriter)]

/-- What is missing of a stamp has a default; the instant is that of the reading. -/
def readStamp (now : DateTime) (name : String) (value : Value) : Option Stamp := do
  let instant ← (forms.instant.orDefault now).read (value.get name)
  let vv ← (vvCodec.orDefault ∅).read (value.get "vv")
  let lastWriter ← (Codec.string.orDefault "").read (value.get "last_writer")
  return ⟨instant, vv, lastWriter⟩

def tombstoneMembers (id : Uuid) (deletedAt : DateTime) (vv : VersionVector)
    (lastWriter : String) : List (String × Value) :=
  ("id", forms.id.toValue id) :: forms.stampMembers "deleted_at" deletedAt vv lastWriter

def readTombstone (now : DateTime) (make : Uuid → DateTime → VersionVector → String → Change)
    (value : Value) : Option Change := do
  let id ← forms.id.required.read (value.get "id")
  let stamp ← forms.readStamp now "deleted_at" value
  return make id stamp.instant stamp.vv stamp.lastWriter

def assocMembers (noteId tagId : Uuid) (updatedAt : DateTime) (vv : VersionVector)
    (lastWriter : String) : List (String × Value) :=
  ("note_id", forms.id.toValue noteId) :: ("tag_id", forms.id.toValue tagId) ::
    forms.stampMembers "updated_at" updatedAt vv lastWriter

def readAssoc (now : DateTime)
    (make : Uuid → Uuid → DateTime → VersionVector → String → Change) (value : Value) :
    Option Change := do
  let noteId ← forms.id.required.read (value.get "note_id")
  let tagId ← forms.id.required.read (value.get "tag_id")
  let stamp ← forms.readStamp now "updated_at" value
  return make noteId tagId stamp.instant stamp.vv stamp.lastWriter

def readEntity {A : Type} (codec : Codec A) (name : String) (make : A → Change)
    (value : Value) : Option Change :=
  (codec.required.read (value.get name)).map make

/-- The payload of a resource is left out where there is none. -/
def dataMembers (data : Option (List UInt8)) : List (String × Value) :=
  match data with
  | none => []
  | some data => [("data", byteCodec.list.optional.write (some data))]

/-- The tag of a change and its members. -/
def changeMembers : Change → String × List (String × Value)
  | .noteCreate note => ("note_create", [("note", forms.note.toValue note)])
  | .noteUpdate note => ("note_update", [("note", forms.note.toValue note)])
  | .noteDelete id deletedAt vv lastWriter =>
      ("note_delete", forms.tombstoneMembers id deletedAt vv lastWriter)
  | .notebookCreate notebook =>
      ("notebook_create", [("notebook", forms.notebook.toValue notebook)])
  | .notebookUpdate notebook =>
      ("notebook_update", [("notebook", forms.notebook.toValue notebook)])
  | .notebookDelete id deletedAt vv lastWriter =>
      ("notebook_delete", forms.tombstoneMembers id deletedAt vv lastWriter)
  | .tagCreate tag => ("tag_create", [("tag", forms.tag.toValue tag)])
  | .tagUpdate tag => ("tag_update", [("tag", forms.tag.toValue tag)])
  | .tagDelete id deletedAt vv lastWriter =>
      ("tag_delete", forms.tombstoneMembers id deletedAt vv lastWriter)
  | .noteTagAdd noteId tagId updatedAt vv lastWriter =>
      ("note_tag_add", forms.assocMembers noteId tagId updatedAt vv lastWriter)
  | .noteTagRemove noteId tagId updatedAt vv lastWriter =>
      ("note_tag_remove", forms.assocMembers noteId tagId updatedAt vv lastWriter)
  | .resourceCreate resource data =>
      ("resource_create", ("resource", forms.resource.toValue resource) :: dataMembers data)
  | .resourceDelete id deletedAt vv lastWriter =>
      ("resource_delete", forms.tombstoneMembers id deletedAt vv lastWriter)

def changeValue (change : Change) : Value :=
  .object (("op", .string (forms.changeMembers change).1) :: (forms.changeMembers change).2)

/-- Changes of notes also have the tags of the time when there were no others. -/
def readTagged (now : DateTime) (tag : String) (value : Value) : Option Change :=
  match tag with
  | "note_create" | "create" => readEntity forms.note "note" .noteCreate value
  | "note_update" | "update" => readEntity forms.note "note" .noteUpdate value
  | "note_delete" | "delete" => forms.readTombstone now .noteDelete value
  | "notebook_create" => readEntity forms.notebook "notebook" .notebookCreate value
  | "notebook_update" => readEntity forms.notebook "notebook" .notebookUpdate value
  | "notebook_delete" => forms.readTombstone now .notebookDelete value
  | "tag_create" => readEntity forms.tag "tag" .tagCreate value
  | "tag_update" => readEntity forms.tag "tag" .tagUpdate value
  | "tag_delete" => forms.readTombstone now .tagDelete value
  | "note_tag_add" => forms.readAssoc now .noteTagAdd value
  | "note_tag_remove" => forms.readAssoc now .noteTagRemove value
  | "resource_create" => do
      let resource ← forms.resource.required.read (value.get "resource")
      let data ← byteCodec.list.optional.read (value.get "data")
      return .resourceCreate resource data
  | "resource_delete" => forms.readTombstone now .resourceDelete value
  | _ => none

theorem read_required {A : Type} (codec : Codec A) (item : A) :
    codec.required.read (some (codec.toValue item)) = some item :=
  codec.roundTrip item

theorem read_orDefault {A : Type} (codec : Codec A) (default item : A) :
    (codec.orDefault default).read (some (codec.toValue item)) = some item :=
  codec.roundTrip item

theorem readTagged_members (now : DateTime) (change : Change) :
    forms.readTagged now (forms.changeMembers change).1 (forms.changeValue change) =
      some change := by
  cases change with
  | resourceCreate resource data =>
      cases data <;> simp [changeValue, changeMembers, readTagged, dataMembers, read_required]
  | _ =>
      simp [changeValue, changeMembers, readTagged, readEntity, readTombstone, readAssoc, readStamp,
        tombstoneMembers, assocMembers, stampMembers, read_required, read_orDefault]

def change (now : DateTime) : Codec Change where
  toValue := forms.changeValue
  fromValue value := ((value.get "op").bind Value.asStr).bind fun tag =>
    forms.readTagged now tag value
  roundTrip change := forms.readTagged_members now change
  notNull _ := Value.noConfusion

/-- What `send_changes` hands over. -/
def changesPayload (batchId : Uuid) (deviceId : String) (changes : List Change) : Value :=
  .object [
    ("type", .string "changes"),
    ("batch_id", forms.id.toValue batchId),
    ("device_id", .string deviceId),
    ("changes", .array (changes.map forms.changeValue))]

/-- What a connection begins with. -/
def authPayload (token deviceId : String) : Value :=
  .object [("type", .string "auth"), ("token", .string token), ("device_id", .string deviceId)]

/-- The changes of a text that was received, none unless it is a batch that can be read. -/
def readBatch (now : DateTime) (text : Value) : List Change :=
  if (text.get "type").bind Value.asStr = some "changes" then
    ((text.get "changes").bind (forms.change now).list.fromValue).getD []
  else []

/-- A batch is read as the changes it was made of, whatever device made it and whenever
it is read. -/
theorem readBatch_changesPayload (now : DateTime) (batchId : Uuid) (deviceId : String)
    (changes : List Change) :
    forms.readBatch now (forms.changesPayload batchId deviceId changes) = changes := by
  have hchanges : (forms.change now).list.fromValue (.array (changes.map forms.changeValue)) =
      some changes := (forms.change now).list.roundTrip changes
  simp [readBatch, changesPayload, hchanges]

@[simp] theorem readBatch_authPayload (now : DateTime) (token deviceId : String) :
    forms.readBatch now (authPayload token deviceId) = [] := by
  simp [readBatch, authPayload]

/-- A text of its own for one item. -/
def special {A : Type} [DecidableEq A] (item : A) (text : String) (write : A → String)
    (other : A) : String :=
  if other = item then text else write other

def parseSpecial {A : Type} (item : A) (text : String) (parse : String → Option A)
    (other : String) : Option A :=
  if other = text then some item else parse other

theorem parseSpecial_special {A : Type} [DecidableEq A] (item : A) {text : String}
    {write : A → String} {parse : String → Option A} (hparse : ∀ a, parse (write a) = some a)
    (htext : parse text = none) (other : A) :
    parseSpecial item text parse (special item text write other) = some other := by
  rw [special, parseSpecial]
  by_cases hother : other = item
  · rw [if_pos hother, if_pos rfl, hother]
  · rw [if_neg hother, if_neg ?_, hparse]
    intro heq
    have hwritten := hparse other
    rw [heq, htext] at hwritten
    contradiction

def tally (n : Nat) : String :=
  String.ofList (List.replicate n 'a')

def parseTally (text : String) : Option Nat :=
  if text.toList.all fun c => c = 'a' then some text.toList.length else none

theorem parseTally_tally (n : Nat) : parseTally (tally n) = some n := by
  rw [parseTally, tally, String.toList_ofList, List.length_replicate, if_pos]
  rw [List.all_eq_true]
  intro c hc
  exact decide_eq_true (List.eq_of_mem_replicate hc)

/-- The texts of the libraries for one identifier and one instant, and for bytes. -/
def sample : TextForms where
  uuid := special 7 "00000000-0000-0000-0000-000000000007" tally
  parseUuid := parseSpecial 7 "00000000-0000-0000-0000-000000000007" parseTally
  parseUuid_uuid := parseSpecial_special 7 parseTally_tally (by decide)
  dateTime := special 0 "1970-01-01T00:00:00Z" fun instant => tally (Encodable.encode instant)
  parseDateTime := parseSpecial 0 "1970-01-01T00:00:00Z" fun text =>
    (parseTally text).bind Encodable.decode
  parseDateTime_dateTime :=
    parseSpecial_special 0
      (fun instant => by rw [parseTally_tally, Option.bind_some, Encodable.encodek]) (by decide)
  base64 data := String.ofList (Base64.encode data)
  decodeBase64 text := Base64.decode text.toList
  decodeBase64_base64 data := by rw [String.toList_ofList, Base64.decode_encode]

end TextForms

end Keeplin
