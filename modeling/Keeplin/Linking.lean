/-
The linking layer over a store: it derives the links and bookmarks of a note from
its body, keeps the Inbox out of the links, and keeps an index of the aliases,
which is built when it is first needed.
-/
import Keeplin.AliasIndex

namespace Keeplin

/-- What the patterns for bookmarks and links find in a body, and the parser of
identifiers. -/
structure LinkSyntax where
  bookmarkCaptures : String → List (String × Option String)
  contentLinkCaptures : String → List String
  parseUuid : String → Option Uuid

/-- What the linking layer asks of the store below it.  `Clock` are the instants
the store reads. -/
structure StorageBackend (S Clock : Type) where
  readNote : Uuid → S → Except StorageError Note
  readNotebook : Uuid → S → Except StorageError Notebook
  collectNotes : S → Except StorageError (List Note)
  collectNotebooks : S → Except StorageError (List Notebook)
  createNote : Clock → Note → S → Except StorageError (S × Note)
  updateNote : Clock → Note → S → Except StorageError (S × Note)
  deleteNote : Clock → Uuid → S → Except StorageError S
  createNotebook : Clock → Notebook → S → Except StorageError (S × Notebook)
  updateNotebook : Clock → Notebook → S → Except StorageError (S × Notebook)
  deleteNotebook : Clock → Uuid → S → Except StorageError S
  applyChange : Clock → Change → S → Except StorageError S

/-- The segments of a reference `#note`, `#notebook#note` or
`#notebook#note#bookmark`. -/
def linkSegments (raw : String) : Option (List String) :=
  match raw.toList with
  | '#' :: body =>
      let segments := (body.splitOn '#').map String.ofList
      if segments.any String.isEmpty then none else some segments
  | _ => none

def parseLinkRef (raw : String) : Option (List String) :=
  (linkSegments raw).filter fun segments => segments.length ≤ 3

def NoteLink.fromRaw (raw : String) (source : LinkSource) : Option NoteLink :=
  (parseLinkRef raw).map fun _ => ⟨source, raw, none⟩

namespace LinkSyntax

variable (patterns : LinkSyntax)

def parseContentLinks (body : String) : List String :=
  (patterns.contentLinkCaptures body).filter fun destination => destination ≠ "###"

/-- Derive the bookmarks, and the links of the body behind those made by hand. -/
def refresh (note : Note) : Note :=
  { note with
    bookmarks := (patterns.bookmarkCaptures note.body).zipIdx.map fun (bookmark, position) =>
      ⟨position + 1, bookmark.1, (bookmark.2.filter fun alias_ => !alias_.isEmpty).getD bookmark.1⟩
    links := (note.links.filter fun link => link.source = .manual) ++
      (patterns.parseContentLinks note.body).filterMap fun raw => NoteLink.fromRaw raw .content }

end LinkSyntax

namespace AliasIndex

variable (idx : AliasIndex) (patterns : LinkSyntax)

def noteAliasTaken (alias_ : String) (selfId notebookId : Uuid) : Bool :=
  (idx.noteAliases.bucket alias_).toList.any fun entry =>
    entry.1 ≠ selfId ∧ entry.2 = notebookId

def notebookAliasTaken (alias_ : String) (selfId : Uuid) : Bool :=
  (idx.notebookAliases.bucket alias_).toList.any fun id => id ≠ selfId

def resolveNotebookSeg (segment : String) : Option Uuid :=
  match patterns.parseUuid segment with
  | some id => some id
  | none => (idx.notebookAliases.bucket segment).toList.head?

/-- The notes under an alias, from the index's set in its order. -/
def noteCandidates (segment : String) : List (Uuid × Uuid) :=
  (idx.noteAliases.bucket segment).toList.filter fun entry => !isInbox entry.2

def resolveNoteSeg (segment : String) (notebookSegment : Option String)
    (sourceNotebook : Option Uuid) : Option Uuid :=
  match patterns.parseUuid segment with
  | some id => some id
  | none =>
      let candidates := idx.noteCandidates segment
      let within (notebookId : Uuid) : Option Uuid :=
        ((candidates.filter fun entry => entry.2 = notebookId).map Prod.fst).min?
      if candidates.isEmpty then none
      else
        match notebookSegment with
        | some notebookSegment =>
            match idx.resolveNotebookSeg patterns notebookSegment with
            | none => none
            | some notebookId => if isInbox notebookId then none else within notebookId
        | none =>
            match candidates, sourceNotebook with
            | [only], _ => some only.1
            | _, some source => within source
            | _, none => (candidates.map Prod.fst).min?

/-- The note of a reference; with two segments the first is a notebook, or else
the note with a bookmark. -/
def resolveTarget (raw : String) (sourceNotebook : Option Uuid) : Option Uuid :=
  match linkSegments raw with
  | some [note] => idx.resolveNoteSeg patterns note none sourceNotebook
  | some [first, second] =>
      match idx.resolveNoteSeg patterns second (some first) sourceNotebook with
      | some id => some id
      | none => idx.resolveNoteSeg patterns first none sourceNotebook
  | some [notebook, note, _] =>
      idx.resolveNoteSeg patterns note (some notebook) sourceNotebook
  | _ => none

end AliasIndex

def changeAffectsAliases : Change → Bool
  | .noteCreate _ | .noteUpdate _ | .noteDelete _ _ _ _ => true
  | .notebookCreate _ | .notebookUpdate _ | .notebookDelete _ _ _ _ => true
  | _ => false

structure LinkingBackend (S : Type) where
  inner : S
  aliasIndex : Option AliasIndex

namespace LinkingBackend

variable {S Clock R : Type} (store : StorageBackend S Clock) (patterns : LinkSyntax)

def withIndex (read : AliasIndex → R) (backend : LinkingBackend S) :
    LinkingBackend S × Except StorageError R :=
  match backend.aliasIndex with
  | some idx => (backend, .ok (read idx))
  | none =>
      match store.collectNotes backend.inner with
      | .error failure => (backend, .error failure)
      | .ok notes =>
          match store.collectNotebooks backend.inner with
          | .error failure => (backend, .error failure)
          | .ok notebooks =>
              let idx := AliasIndex.fromSnapshots notes notebooks
              ({ backend with aliasIndex := some idx }, .ok (read idx))

/-- The live notes among these that are in the Inbox. -/
def inboxTargets (inner : S) (ids : List Uuid) : List Uuid :=
  ids.filter fun id =>
    match store.readNote id inner with
    | .ok target => target.deletedAt.isNone && isInbox target.notebookId
    | .error _ => false

/-- What an index lookup finds for a note: is its alias taken, the targets of its
links, and those that may be in the Inbox for all the index says. -/
def lookUp (note : Note) (idx : AliasIndex) : Bool × List (Option Uuid) × List Uuid :=
  let taken := note.alias.any fun alias_ => idx.noteAliasTaken alias_ note.id note.notebookId
  let targets := note.links.map fun link =>
    idx.resolveTarget patterns link.raw (some note.notebookId)
  (taken, targets, (targets.filterMap id).filter fun id => !idx.aliasedNotes.contains id)

def linked (note : Note) (targets : List (Option Uuid)) (inbox : List Uuid) : Note :=
  { note with
    links := List.zipWith (fun link target =>
      { link with targetNoteId := target.filter fun id => id ∉ inbox }) note.links targets }

/-- A note of the Inbox has no alias and links to nothing. -/
def isolated (note : Note) : Note :=
  { note with
    «alias» := none, links := note.links.map fun link => { link with targetNoteId := none } }

def prepare (note : Note) (backend : LinkingBackend S) :
    LinkingBackend S × Except StorageError Note :=
  let note := patterns.refresh note
  if isInbox note.notebookId then (backend, .ok (isolated note))
  else if note.alias = none ∧ note.links = [] then (backend, .ok note)
  else
    match withIndex store (lookUp patterns note) backend with
    | (backend, .error failure) => (backend, .error failure)
    | (backend, .ok (taken, targets, unverified)) =>
        if taken then
          (backend, .error (.conflict
            ("note alias '" ++ note.alias.getD "" ++ "' is already in use")))
        else (backend, .ok (linked note targets (inboxTargets store backend.inner unverified)))

def ensureNotebookAliasFree (notebook : Notebook) (backend : LinkingBackend S) :
    LinkingBackend S × Except StorageError Unit :=
  match notebook.alias with
  | none => (backend, .ok ())
  | some alias_ =>
      match withIndex store (fun idx => idx.notebookAliasTaken alias_ notebook.id) backend with
      | (backend, .error failure) => (backend, .error failure)
      | (backend, .ok true) =>
          (backend, .error (.conflict ("notebook alias '" ++ alias_ ++ "' is already in use")))
      | (backend, .ok false) => (backend, .ok ())

/-- Prepare the note, hand it to the store and index what was stored. -/
def writeNote (write : Note → S → Except StorageError (S × Note)) (note : Note)
    (backend : LinkingBackend S) : LinkingBackend S × Except StorageError Note :=
  match prepare store patterns note backend with
  | (backend, .error failure) => (backend, .error failure)
  | (backend, .ok note) =>
      match write note backend.inner with
      | .error failure => (backend, .error failure)
      | .ok (inner, stored) =>
          (⟨inner, backend.aliasIndex.map fun idx => idx.upsertNote stored⟩, .ok stored)

def createNote (clock : Clock) (note : Note) (backend : LinkingBackend S) :
    LinkingBackend S × Except StorageError Note :=
  writeNote store patterns (store.createNote clock) note backend

def updateNote (clock : Clock) (note : Note) (backend : LinkingBackend S) :
    LinkingBackend S × Except StorageError Note :=
  writeNote store patterns (store.updateNote clock) note backend

def deleteNote (clock : Clock) (id : Uuid) (backend : LinkingBackend S) :
    LinkingBackend S × Except StorageError Unit :=
  match store.deleteNote clock id backend.inner with
  | .error failure => (backend, .error failure)
  | .ok inner => (⟨inner, backend.aliasIndex.map fun idx => idx.removeNote id⟩, .ok ())

def writeNotebook (write : Notebook → S → Except StorageError (S × Notebook))
    (notebook : Notebook) (backend : LinkingBackend S) :
    LinkingBackend S × Except StorageError Notebook :=
  match ensureNotebookAliasFree store notebook backend with
  | (backend, .error failure) => (backend, .error failure)
  | (backend, .ok ()) =>
      match write notebook backend.inner with
      | .error failure => (backend, .error failure)
      | .ok (inner, stored) =>
          (⟨inner, backend.aliasIndex.map fun idx => idx.upsertNotebook stored⟩, .ok stored)

def createNotebook (clock : Clock) (notebook : Notebook) (backend : LinkingBackend S) :
    LinkingBackend S × Except StorageError Notebook :=
  writeNotebook store (store.createNotebook clock) notebook backend

def updateNotebook (clock : Clock) (notebook : Notebook) (backend : LinkingBackend S) :
    LinkingBackend S × Except StorageError Notebook :=
  writeNotebook store (store.updateNotebook clock) notebook backend

def deleteNotebook (clock : Clock) (id : Uuid) (backend : LinkingBackend S) :
    LinkingBackend S × Except StorageError Unit :=
  match store.deleteNotebook clock id backend.inner with
  | .error failure => (backend, .error failure)
  | .ok inner => (⟨inner, backend.aliasIndex.map fun idx => idx.removeNotebook id⟩, .ok ())

def applyChange (clock : Clock) (change : Change) (backend : LinkingBackend S) :
    LinkingBackend S × Except StorageError Unit :=
  match store.applyChange clock change backend.inner with
  | .error failure => (backend, .error failure)
  | .ok inner =>
      (⟨inner, if changeAffectsAliases change then none else backend.aliasIndex⟩, .ok ())

end LinkingBackend

end Keeplin
