/-
Encryption of what an entity says, field by field: each text becomes the base64
text of a nonce and a ciphertext, each payload a nonce and a ciphertext.  Ids,
instants, flags and vectors stay as they are.
-/
import Keeplin.JournalTail
import Keeplin.NoteHistory

namespace Keeplin

def NONCE_LEN : Nat := 12

abbrev Nonce := { bytes : List UInt8 // bytes.length = NONCE_LEN }

/-- A source of random nonces, by what it gives. -/
abbrev Rng := Nat → Nonce

def generateNonce : StateM Rng Nonce := fun rng => (rng 0, fun index => rng (index + 1))

/-- The cipher under one key, and base64. -/
structure Cipher where
  encrypt : Nonce → List UInt8 → List UInt8
  decrypt : Nonce → List UInt8 → Option (List UInt8)
  encode : List UInt8 → String
  decode : String → Option (List UInt8)

/-- Decrypting undoes encrypting and decoding undoes encoding, which makes no text
of no bytes. -/
structure Cipher.Lawful (cipher : Cipher) : Prop where
  decrypt_encrypt : ∀ nonce plain, cipher.decrypt nonce (cipher.encrypt nonce plain) = some plain
  decode_encode : ∀ bytes, cipher.decode (cipher.encode bytes) = some bytes
  encode_nil : cipher.encode [] = ""

namespace Cipher

variable (cipher : Cipher)

def encryptBytes (data : List UInt8) : StateM Rng (List UInt8) := do
  let nonce ← generateNonce
  return nonce.1 ++ cipher.encrypt nonce data

theorem length_take_nonce {data : List UInt8} (hlength : ¬ data.length < NONCE_LEN) :
    (data.take NONCE_LEN).length = NONCE_LEN := by
  rw [List.length_take]
  omega

def decryptBytes (data : List UInt8) : Except StorageError (List UInt8) :=
  if hlength : data.length < NONCE_LEN then .error .corruptedData
  else
    let nonce : Nonce := ⟨data.take NONCE_LEN, length_take_nonce hlength⟩
    match cipher.decrypt nonce (data.drop NONCE_LEN) with
    | some plain => .ok plain
    | none => .error .corruptedData

def encryptStr (plaintext : String) : StateM Rng String := do
  let combined ← cipher.encryptBytes (utf8 plaintext.toList)
  return cipher.encode combined

def decryptStr (encoded : String) : Except StorageError String :=
  match cipher.decode encoded with
  | none => .error .corruptedData
  | some combined =>
      match cipher.decryptBytes combined with
      | .error failure => .error failure
      | .ok plain =>
          match Keeplin.decode plain with
          | .ok text => .ok (String.ofList text)
          | .error _ => .error .corruptedData

def encBookmark (bookmark : Bookmark) : StateM Rng Bookmark := do
  let text ← cipher.encryptStr bookmark.text
  let «alias» ← cipher.encryptStr bookmark.alias
  return { bookmark with text := text, «alias» := «alias» }

def decBookmark (bookmark : Bookmark) : Except StorageError Bookmark := do
  let text ← cipher.decryptStr bookmark.text
  let «alias» ← cipher.decryptStr bookmark.alias
  return { bookmark with text := text, «alias» := «alias» }

def encLink (link : NoteLink) : StateM Rng NoteLink := do
  let raw ← cipher.encryptStr link.raw
  return { link with raw := raw }

def decLink (link : NoteLink) : Except StorageError NoteLink := do
  let raw ← cipher.decryptStr link.raw
  return { link with raw := raw }

def encNote (note : Note) : StateM Rng Note := do
  let title ← cipher.encryptStr note.title
  let body ← cipher.encryptStr note.body
  let «alias» ← note.alias.mapM cipher.encryptStr
  let bookmarks ← note.bookmarks.mapM cipher.encBookmark
  let links ← note.links.mapM cipher.encLink
  return { note with
    title := title, body := body, «alias» := «alias», bookmarks := bookmarks, links := links }

def decNote (note : Note) : Except StorageError Note := do
  let title ← cipher.decryptStr note.title
  let body ← cipher.decryptStr note.body
  let «alias» ← note.alias.mapM cipher.decryptStr
  let bookmarks ← note.bookmarks.mapM cipher.decBookmark
  let links ← note.links.mapM cipher.decLink
  return { note with
    title := title, body := body, «alias» := «alias», bookmarks := bookmarks, links := links }

def encNotebook (notebook : Notebook) : StateM Rng Notebook := do
  let title ← cipher.encryptStr notebook.title
  let «alias» ← notebook.alias.mapM cipher.encryptStr
  return { notebook with title := title, «alias» := «alias» }

def decNotebook (notebook : Notebook) : Except StorageError Notebook := do
  let title ← cipher.decryptStr notebook.title
  let «alias» ← notebook.alias.mapM cipher.decryptStr
  return { notebook with title := title, «alias» := «alias» }

def encTag (tag : Tag) : StateM Rng Tag := do
  let title ← cipher.encryptStr tag.title
  return { tag with title := title }

def decTag (tag : Tag) : Except StorageError Tag := do
  let title ← cipher.decryptStr tag.title
  return { tag with title := title }

def encResource (resource : Resource) : StateM Rng Resource := do
  let title ← cipher.encryptStr resource.title
  let mimeType ← cipher.encryptStr resource.mimeType
  let fileName ← cipher.encryptStr resource.fileName
  return { resource with title := title, mimeType := mimeType, fileName := fileName }

def decResource (resource : Resource) : Except StorageError Resource := do
  let title ← cipher.decryptStr resource.title
  let mimeType ← cipher.decryptStr resource.mimeType
  let fileName ← cipher.decryptStr resource.fileName
  return { resource with title := title, mimeType := mimeType, fileName := fileName }

/-- The change that a device with the key sends for one of a plain entity. -/
def encChange : Change → StateM Rng Change
  | .noteCreate note => do return .noteCreate (← cipher.encNote note)
  | .noteUpdate note => do return .noteUpdate (← cipher.encNote note)
  | .notebookCreate notebook => do return .notebookCreate (← cipher.encNotebook notebook)
  | .notebookUpdate notebook => do return .notebookUpdate (← cipher.encNotebook notebook)
  | .tagCreate tag => do return .tagCreate (← cipher.encTag tag)
  | .tagUpdate tag => do return .tagUpdate (← cipher.encTag tag)
  | .resourceCreate resource data => do
      let sealed ← cipher.encResource resource
      return .resourceCreate sealed (← data.mapM cipher.encryptBytes)
  | change => pure change

variable {cipher}

/-- Whatever the nonces, what `seal` makes of an item opens to it. -/
abbrev Undoes {A B : Type} (opens : B → Except StorageError A) (seals : A → StateM Rng B) : Prop :=
  ∀ item rng, opens (seals item rng).1 = .ok item

theorem undoes_encryptBytes (hlawful : cipher.Lawful) :
    Undoes cipher.decryptBytes cipher.encryptBytes := by
  intro data rng
  have hlength : (rng 0).1.length = NONCE_LEN := (rng 0).2
  have htake : ((rng 0).1 ++ cipher.encrypt (rng 0) data).take NONCE_LEN = (rng 0).1 :=
    List.take_left' hlength
  have hdrop : ((rng 0).1 ++ cipher.encrypt (rng 0) data).drop NONCE_LEN =
      cipher.encrypt (rng 0) data :=
    List.drop_left' hlength
  change cipher.decryptBytes ((rng 0).1 ++ cipher.encrypt (rng 0) data) = _
  have hlong : ¬ ((rng 0).1 ++ cipher.encrypt (rng 0) data).length < NONCE_LEN := by
    rw [List.length_append, hlength]
    omega
  simp only [decryptBytes, dif_neg hlong, htake, hdrop, hlawful.decrypt_encrypt]

theorem undoes_encryptStr (hlawful : cipher.Lawful) :
    Undoes cipher.decryptStr cipher.encryptStr := by
  intro plaintext rng
  change cipher.decryptStr
    (cipher.encode (cipher.encryptBytes (utf8 plaintext.toList) rng).1) = _
  simp only [decryptStr, hlawful.decode_encode, undoes_encryptBytes hlawful _ rng, decode_utf8,
    String.ofList_toList]

@[simp] theorem seal_bind {A B : Type} (first : StateM Rng A) (next : A → StateM Rng B)
    (rng : Rng) :
    (first >>= next) rng = next (first rng).1 (first rng).2 := rfl

@[simp] theorem seal_pure {A : Type} (item : A) (rng : Rng) :
    (pure item : StateM Rng A) rng = (item, rng) := rfl

@[simp] theorem open_bind {A B : Type} (item : A) (next : A → Except StorageError B) :
    (Except.ok item >>= next) = next item := rfl

theorem Undoes.mapM {A B : Type} {opens : B → Except StorageError A} {seals : A → StateM Rng B}
    (hundoes : Undoes opens seals) :
    Undoes (fun items : List B => items.mapM opens) fun items : List A => items.mapM seals := by
  intro items
  induction items with
  | nil => exact fun rng => rfl
  | cons item rest ih =>
      intro rng
      simp only [List.mapM_cons, seal_bind, seal_pure, hundoes _ _, open_bind]
      have hrest : (rest.mapM seals (seals item rng).2).1.mapM opens = .ok rest := ih _
      rw [hrest]
      rfl

theorem Undoes.mapM_option {A B : Type} {opens : B → Except StorageError A}
    {seals : A → StateM Rng B} (hundoes : Undoes opens seals) :
    Undoes (fun item : Option B => item.mapM opens) fun item : Option A => item.mapM seals := by
  intro item rng
  cases item with
  | none => rfl
  | some item =>
      change (some (seals item rng).1).mapM opens = _
      rw [Option.mapM_some, hundoes item rng]
      rfl

section Entities

variable (hlawful : cipher.Lawful)
include hlawful

theorem undoes_encBookmark : Undoes cipher.decBookmark cipher.encBookmark := by
  intro bookmark rng
  simp only [encBookmark, decBookmark, seal_bind, seal_pure, undoes_encryptStr hlawful _ _,
    open_bind]
  rfl

theorem undoes_encLink : Undoes cipher.decLink cipher.encLink := by
  intro link rng
  simp only [encLink, decLink, seal_bind, seal_pure, undoes_encryptStr hlawful _ _,
    open_bind]
  rfl

theorem undoes_encNote : Undoes cipher.decNote cipher.encNote := by
  intro note rng
  simp only [encNote, decNote, seal_bind, seal_pure, undoes_encryptStr hlawful _ _,
    (undoes_encryptStr hlawful).mapM_option _ _, (undoes_encBookmark hlawful).mapM _ _,
    (undoes_encLink hlawful).mapM _ _, open_bind]
  rfl

theorem undoes_encNotebook : Undoes cipher.decNotebook cipher.encNotebook := by
  intro notebook rng
  simp only [encNotebook, decNotebook, seal_bind, seal_pure, undoes_encryptStr hlawful _ _,
    (undoes_encryptStr hlawful).mapM_option _ _, open_bind]
  rfl

theorem undoes_encTag : Undoes cipher.decTag cipher.encTag := by
  intro tag rng
  simp only [encTag, decTag, seal_bind, seal_pure, undoes_encryptStr hlawful _ _,
    open_bind]
  rfl

theorem undoes_encResource : Undoes cipher.decResource cipher.encResource := by
  intro resource rng
  simp only [encResource, decResource, seal_bind, seal_pure, undoes_encryptStr hlawful _ _,
    open_bind]
  rfl

/-- The empty text is no ciphertext. -/
theorem decryptStr_empty : cipher.decryptStr "" = .error .corruptedData := by
  have hdecode : cipher.decode "" = some [] := by
    rw [← hlawful.encode_nil, hlawful.decode_encode]
  rw [decryptStr, hdecode]
  rfl

end Entities

end Cipher

end Keeplin
