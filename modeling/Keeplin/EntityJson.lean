/-
The entities as JSON, as the derived serializers write and read them.  The texts of
identifiers, instants and bytes are those of the libraries, which read what they write.
-/
import Keeplin.FsTree
import Keeplin.JsonCodecs

namespace Keeplin

open Json

/-- The texts of what JSON has no values for. -/
structure TextForms where
  uuid : Uuid → String
  parseUuid : String → Option Uuid
  parseUuid_uuid : ∀ id, parseUuid (uuid id) = some id
  dateTime : DateTime → String
  parseDateTime : String → Option DateTime
  parseDateTime_dateTime : ∀ instant, parseDateTime (dateTime instant) = some instant
  base64 : List UInt8 → String
  decodeBase64 : String → Option (List UInt8)
  decodeBase64_base64 : ∀ data, decodeBase64 (base64 data) = some data

theorem ofList_toList (vv : VersionVector) : Std.ExtTreeMap.ofList vv.toList compare = vv := by
  refine Std.ExtTreeMap.ext_getElem? fun device => ?_
  cases hcount : vv[device]? with
  | some count =>
      exact Std.ExtTreeMap.getElem?_ofList_of_mem Std.ReflCmp.compare_self
        Std.ExtTreeMap.distinct_keys_toList
        (Std.ExtTreeMap.mem_toList_iff_getElem?_eq_some.mpr hcount)
  | none =>
      refine Std.ExtTreeMap.getElem?_ofList_of_contains_eq_false ?_
      rw [Bool.eq_false_iff, Ne, List.contains_iff_mem]
      intro hdevice
      obtain ⟨entry, hentry, rfl⟩ := List.mem_map.mp hdevice
      have hfound := Std.ExtTreeMap.mem_toList_iff_getElem?_eq_some.mp hentry
      rw [hcount] at hfound
      contradiction

def vvCodec : Codec VersionVector where
  toValue vv := .object (vv.toList.map fun entry => (entry.1, Codec.number.toValue entry.2))
  fromValue
    | .object members =>
        (members.mapM fun found =>
          (Codec.number.fromValue found.2).map (Prod.mk found.1)).map fun entries =>
            Std.ExtTreeMap.ofList entries compare
    | _ => none
  roundTrip vv := by
    simp only
    rw [Codec.mapM_map (fun entry => by rw [Codec.roundTrip, Option.map_some]), Option.map_some,
      ofList_toList]
  notNull _ := Value.noConfusion

def linkSourceCodec : Codec LinkSource where
  toValue
    | .content => .string "content"
    | .manual => .string "manual"
  fromValue
    | .string "content" => some .content
    | .string "manual" => some .manual
    | _ => none
  roundTrip source := by cases source <;> rfl
  notNull source := by cases source <;> exact Value.noConfusion

def bookmarkCodec : Codec Bookmark where
  toValue bookmark := .object [
    ("number", Codec.number.required.write bookmark.number),
    ("text", Codec.string.required.write bookmark.text),
    ("alias", Codec.string.required.write bookmark.alias)]
  fromValue value := do
    let number ← Codec.number.required.read (value.get "number")
    let text ← Codec.string.required.read (value.get "text")
    let aliasText ← Codec.string.required.read (value.get "alias")
    return ⟨number, text, aliasText⟩
  roundTrip bookmark := by simp
  notNull _ := Value.noConfusion

namespace TextForms

variable (forms : TextForms)

def id : Codec Uuid := .ofText forms.uuid forms.parseUuid forms.parseUuid_uuid

def instant : Codec DateTime :=
  .ofText forms.dateTime forms.parseDateTime forms.parseDateTime_dateTime

/-- An instant that may be missing, as a reader that asks for a text finds it. -/
theorem asStr_optional_instant (found : Option DateTime) :
    ((forms.instant.optional.write found).asStr).bind forms.parseDateTime = found := by
  cases found with
  | none => rfl
  | some instant => exact forms.parseDateTime_dateTime instant

/-- The target is left out where there is none. -/
def noteLink : Codec NoteLink where
  toValue link := .object ([
    ("source", linkSourceCodec.required.write link.source),
    ("raw", Codec.string.required.write link.raw)] ++
      match link.targetNoteId with
      | none => []
      | some target => [("target_note_id", forms.id.optional.write (some target))])
  fromValue value := do
    let source ← linkSourceCodec.required.read (value.get "source")
    let raw ← Codec.string.required.read (value.get "raw")
    let targetNoteId ← forms.id.optional.read (value.get "target_note_id")
    return ⟨source, raw, targetNoteId⟩
  roundTrip link := by
    obtain ⟨source, raw, targetNoteId⟩ := link
    cases targetNoteId <;> simp
  notNull _ := Value.noConfusion

def notebook : Codec Notebook where
  toValue notebook := .object [
    ("id", forms.id.required.write notebook.id),
    ("title", Codec.string.required.write notebook.title),
    ("created_at", forms.instant.required.write notebook.createdAt),
    ("updated_at", forms.instant.required.write notebook.updatedAt),
    ("deleted_at", forms.instant.optional.write notebook.deletedAt),
    ("alias", Codec.string.optional.write notebook.alias),
    ("vv", (vvCodec.orDefault ∅).write notebook.vv),
    ("last_writer", (Codec.string.orDefault "").write notebook.lastWriter)]
  fromValue value := do
    let id ← forms.id.required.read (value.get "id")
    let title ← Codec.string.required.read (value.get "title")
    let createdAt ← forms.instant.required.read (value.get "created_at")
    let updatedAt ← forms.instant.required.read (value.get "updated_at")
    let deletedAt ← forms.instant.optional.read (value.get "deleted_at")
    let aliasText ← Codec.string.optional.read (value.get "alias")
    let vv ← (vvCodec.orDefault ∅).read (value.get "vv")
    let lastWriter ← (Codec.string.orDefault "").read (value.get "last_writer")
    return ⟨id, title, createdAt, updatedAt, deletedAt, aliasText, vv, lastWriter⟩
  roundTrip notebook := by simp
  notNull _ := Value.noConfusion

def tag : Codec Tag where
  toValue tag := .object [
    ("id", forms.id.required.write tag.id),
    ("title", Codec.string.required.write tag.title),
    ("created_at", forms.instant.required.write tag.createdAt),
    ("updated_at", forms.instant.required.write tag.updatedAt),
    ("deleted_at", forms.instant.optional.write tag.deletedAt),
    ("vv", (vvCodec.orDefault ∅).write tag.vv),
    ("last_writer", (Codec.string.orDefault "").write tag.lastWriter),
    ("system", (Codec.bool.orDefault false).write tag.system)]
  fromValue value := do
    let id ← forms.id.required.read (value.get "id")
    let title ← Codec.string.required.read (value.get "title")
    let createdAt ← forms.instant.required.read (value.get "created_at")
    let updatedAt ← forms.instant.required.read (value.get "updated_at")
    let deletedAt ← forms.instant.optional.read (value.get "deleted_at")
    let vv ← (vvCodec.orDefault ∅).read (value.get "vv")
    let lastWriter ← (Codec.string.orDefault "").read (value.get "last_writer")
    let system ← (Codec.bool.orDefault false).read (value.get "system")
    return ⟨id, title, createdAt, updatedAt, deletedAt, vv, lastWriter, system⟩
  roundTrip tag := by simp
  notNull _ := Value.noConfusion

/-- The members of a resource, which its sidecar and the journal of a database add to. -/
def resourceMembers (resource : Resource) : List (String × Value) := [
  ("id", forms.id.required.write resource.id),
  ("note_id", (forms.id.orDefault SYSTEM_RESOURCE_NOTE_ID).write resource.noteId),
  ("title", Codec.string.required.write resource.title),
  ("mime_type", Codec.string.required.write resource.mimeType),
  ("file_name", Codec.string.required.write resource.fileName),
  ("size", Codec.number.required.write resource.size),
  ("duration_ms", Codec.number.optional.write resource.durationMs),
  ("dimensions", (Codec.number.pair .number).optional.write resource.dimensions),
  ("created_at", forms.instant.required.write resource.createdAt),
  ("deleted_at", forms.instant.optional.write resource.deletedAt),
  ("vv", (vvCodec.orDefault ∅).write resource.vv),
  ("last_writer", (Codec.string.orDefault "").write resource.lastWriter)]

def readResource (value : Value) : Option Resource := do
  let id ← forms.id.required.read (value.get "id")
  let noteId ← (forms.id.orDefault SYSTEM_RESOURCE_NOTE_ID).read (value.get "note_id")
  let title ← Codec.string.required.read (value.get "title")
  let mimeType ← Codec.string.required.read (value.get "mime_type")
  let fileName ← Codec.string.required.read (value.get "file_name")
  let size ← Codec.number.required.read (value.get "size")
  let durationMs ← Codec.number.optional.read (value.get "duration_ms")
  let dimensions ← (Codec.number.pair .number).optional.read (value.get "dimensions")
  let createdAt ← forms.instant.required.read (value.get "created_at")
  let deletedAt ← forms.instant.optional.read (value.get "deleted_at")
  let vv ← (vvCodec.orDefault ∅).read (value.get "vv")
  let lastWriter ← (Codec.string.orDefault "").read (value.get "last_writer")
  return ⟨id, noteId, title, mimeType, fileName, size, durationMs, dimensions, createdAt,
    deletedAt, vv, lastWriter⟩

/-- Members that come after those of a resource are passed over. -/
theorem readResource_append (resource : Resource) (more : List (String × Value)) :
    forms.readResource (.object (forms.resourceMembers resource ++ more)) = some resource := by
  simp [readResource, resourceMembers]

/-- So is a member given under a name of none of them. -/
theorem readResource_set (value given : Value) :
    forms.readResource (value.set "_data_b64" given) = forms.readResource value := by
  simp [readResource, Value.get_set_of_ne]

def resource : Codec Resource where
  toValue resource := .object (forms.resourceMembers resource)
  fromValue := forms.readResource
  roundTrip resource := by
    have hread := forms.readResource_append resource []
    rwa [List.append_nil] at hread
  notNull _ := Value.noConfusion

def note : Codec Note where
  toValue note := .object [
    ("id", forms.id.required.write note.id),
    ("title", Codec.string.required.write note.title),
    ("body", Codec.string.required.write note.body),
    ("notebook_id", (forms.id.orNull Uuid.nil).write note.notebookId),
    ("is_todo", Codec.bool.required.write note.isTodo),
    ("todo_due", forms.instant.optional.write note.todoDue),
    ("todo_completed", forms.instant.optional.write note.todoCompleted),
    ("created_at", forms.instant.required.write note.createdAt),
    ("updated_at", forms.instant.required.write note.updatedAt),
    ("deleted_at", forms.instant.optional.write note.deletedAt),
    ("alias", Codec.string.optional.write note.alias),
    ("bookmarks", (bookmarkCodec.list.orDefault []).write note.bookmarks),
    ("links", (forms.noteLink.list.orDefault []).write note.links),
    ("vv", (vvCodec.orDefault ∅).write note.vv),
    ("last_writer", (Codec.string.orDefault "").write note.lastWriter),
    ("is_pinned", (Codec.bool.orDefault false).write note.isPinned),
    ("is_starred", (Codec.bool.orDefault false).write note.isStarred),
    ("sort_key", (Codec.number.orDefault 0).write note.sortKey)]
  fromValue value := do
    let id ← forms.id.required.read (value.get "id")
    let title ← Codec.string.required.read (value.get "title")
    let body ← Codec.string.required.read (value.get "body")
    let notebookId ← (forms.id.orNull Uuid.nil).read (value.get "notebook_id")
    let isTodo ← Codec.bool.required.read (value.get "is_todo")
    let todoDue ← forms.instant.optional.read (value.get "todo_due")
    let todoCompleted ← forms.instant.optional.read (value.get "todo_completed")
    let createdAt ← forms.instant.required.read (value.get "created_at")
    let updatedAt ← forms.instant.required.read (value.get "updated_at")
    let deletedAt ← forms.instant.optional.read (value.get "deleted_at")
    let aliasText ← Codec.string.optional.read (value.get "alias")
    let bookmarks ← (bookmarkCodec.list.orDefault []).read (value.get "bookmarks")
    let links ← (forms.noteLink.list.orDefault []).read (value.get "links")
    let vv ← (vvCodec.orDefault ∅).read (value.get "vv")
    let lastWriter ← (Codec.string.orDefault "").read (value.get "last_writer")
    let isPinned ← (Codec.bool.orDefault false).read (value.get "is_pinned")
    let isStarred ← (Codec.bool.orDefault false).read (value.get "is_starred")
    let sortKey ← (Codec.number.orDefault 0).read (value.get "sort_key")
    return ⟨id, title, body, notebookId, isTodo, todoDue, todoCompleted, createdAt, updatedAt,
      deletedAt, aliasText, bookmarks, links, vv, lastWriter, isPinned, isStarred, sortKey⟩
  roundTrip note := by simp
  notNull _ := Value.noConfusion

/-- A resource and the name of its payload, as members of one object. -/
def storedResource : Codec StoredResource where
  toValue stored := .object (forms.resourceMembers stored.resource ++
    [("blob_hash", (Codec.string.orDefault "").write stored.blobHash)])
  fromValue value := do
    let resource ← forms.readResource value
    let blobHash ← (Codec.string.orDefault "").read (value.get "blob_hash")
    return ⟨resource, blobHash⟩
  roundTrip stored := by
    rw [forms.readResource_append]
    simp [resourceMembers]
  notNull _ := Value.noConfusion

def noteTagState : Codec NoteTagState where
  toValue state := .object [
    ("updated_at", forms.instant.required.write state.updatedAt),
    ("deleted_at", forms.instant.optional.write state.deletedAt),
    ("vv", (vvCodec.orDefault ∅).write state.vv),
    ("last_writer", (Codec.string.orDefault "").write state.lastWriter)]
  fromValue value := do
    let updatedAt ← forms.instant.required.read (value.get "updated_at")
    let deletedAt ← forms.instant.optional.read (value.get "deleted_at")
    let vv ← (vvCodec.orDefault ∅).read (value.get "vv")
    let lastWriter ← (Codec.string.orDefault "").read (value.get "last_writer")
    return ⟨updatedAt, deletedAt, vv, lastWriter⟩
  roundTrip state := by simp
  notNull _ := Value.noConfusion

/-- The state an association's file is read as: that of a marker, where it has no state. -/
def readAssocState (file : Option Value) : NoteTagState :=
  (file.bind forms.noteTagState.fromValue).getD FsTree.assocMarker

@[simp] theorem readAssocState_toValue (state : NoteTagState) :
    forms.readAssocState (some (forms.noteTagState.toValue state)) = state := by
  simp [readAssocState]

/-- A resource's sidecar is read as a resource too. -/
theorem readResource_of_stored {value : Value} {stored : StoredResource}
    (hread : forms.storedResource.fromValue value = some stored) :
    forms.resource.fromValue value = some stored.resource := by
  obtain ⟨resource, hresource, hrest⟩ := Option.bind_eq_some_iff.mp hread
  obtain ⟨blobHash, _, hstored⟩ := Option.bind_eq_some_iff.mp hrest
  obtain rfl := Option.some.inj hstored
  exact hresource

end TextForms

end Keeplin
