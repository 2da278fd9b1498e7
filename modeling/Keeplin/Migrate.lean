/-
The migration of a store into another.  It reads the listings of the one page by page and
creates in the other what they have, and counts it.
-/
import Keeplin.EncryptedBackend
import Keeplin.Procedures

namespace Keeplin

open Procedures

/-- What a migration calls of a store. -/
structure MigrationBackend (S Clock : Type) where
  listNotebooks : Nat → Option Text → S → Except StorageError (List Notebook × Option Text)
  listTags : Nat → Option Text → S → Except StorageError (List Tag × Option Text)
  listNotes : Nat → Option Text → S → Except StorageError (List Note × Option Text)
  listNoteTags : Uuid → Nat → Option Text → S → Except StorageError (List Tag × Option Text)
  listResources : Nat → Option Text → S → Except StorageError (List Resource × Option Text)
  readResource : Uuid → S → Except StorageError (Resource × List UInt8)
  createNotebook : Clock → Notebook → S → S × Except StorageError Reply
  createTag : Clock → Tag → S → S × Except StorageError Reply
  createNote : Clock → Note → S → S × Except StorageError Reply
  addNoteTag : Clock → NoteTag → S → S × Except StorageError Reply
  createResource : Clock → Resource → List UInt8 → S → S × Except StorageError Reply

def migrationPage : Nat := 500

structure MigrationReport where
  notebooks : Nat
  tags : Nat
  notes : Nat
  noteTags : Nat
  resources : Nat
deriving DecidableEq

/-- The destination, and how many calls it has answered. -/
structure Migrating (T : Type) where
  target : T
  calls : Nat

namespace MigrationBackend

variable {S T C D : Type}

/-- A call of the source, which leaves the destination. -/
def ask {A : Type} (answer : Option (Except StorageError A)) :
    Procedure (Migrating T) StorageError A :=
  fun state => answer.map fun result => (state, result)

/-- The pages of a listing of the source, up to a last one. -/
def collect {A : Type} (fuel : Nat)
    (page : Option Text → Except StorageError (List A × Option Text)) :
    Procedure (Migrating T) StorageError (List A) :=
  ask (followPages page fuel none)

/-- A call of the destination, counted as one. -/
def request (clock : Nat → D) (call : D → T → T × Except StorageError Reply) :
    Procedure (Migrating T) StorageError Nat := fun state =>
  let done := call (clock state.calls) state.target
  some (⟨done.1, state.calls + 1⟩, done.2.map fun _ => 1)

variable (src : MigrationBackend S C) (dst : MigrationBackend T D) (fuel : Nat) (clock : Nat → D)

def migrate (source : S) : Procedure (Migrating T) StorageError MigrationReport := do
  let listed ← collect fuel fun token => src.listNotebooks migrationPage token source
  let notebooks ← forEach listed fun notebook =>
    request clock fun now => dst.createNotebook now notebook
  let listed ← collect fuel fun token => src.listTags migrationPage token source
  let tags ← forEach listed fun tag => request clock fun now => dst.createTag now tag
  let listed ← collect fuel fun token => src.listNotes migrationPage token source
  let notes ← forEach listed fun note => request clock fun now => dst.createNote now note
  let noteTags ← forEach listed fun note => do
    let attached ← collect fuel fun token => src.listNoteTags note.id migrationPage token source
    forEach attached fun tag => request clock fun now => dst.addNoteTag now ⟨note.id, tag.id⟩
  let listed ← collect fuel fun token => src.listResources migrationPage token source
  let resources ← forEach listed fun found => do
    let (resource, data) ← ask (some (src.readResource found.id source))
    request clock fun now => dst.createResource now resource data
  pure ⟨notebooks, tags, notes, noteTags, resources⟩

end MigrationBackend

/-- What a store stamps on an entity that it creates is left out. -/
def Notebook.unstamped (notebook : Notebook) : Notebook :=
  { notebook with vv := ∅, lastWriter := "" }

def Tag.unstamped (tag : Tag) : Tag := { tag with vv := ∅, lastWriter := "" }

def Note.unstamped (note : Note) : Note := { note with vv := ∅, lastWriter := "" }

def Resource.unstamped (resource : Resource) : Resource :=
  { resource with vv := ∅, lastWriter := "" }

/-- The live entities of a store, the tags on its live notes, and the bytes of its live
resources. -/
structure Contents where
  notebook : Uuid → Option Notebook
  tag : Uuid → Option Tag
  note : Uuid → Option Note
  attached : Uuid × Uuid → Bool
  resource : Uuid → Option (Resource × List UInt8)

namespace Contents

/-- A resource but for its stamp, and its bytes. -/
def shelved (row : Resource × List UInt8) : Resource × List UInt8 := (row.1.unstamped, row.2)

/-- The same entities in every field but the vector and the last writer. -/
structure Same (source target : Contents) : Prop where
  notebook : ∀ id, (target.notebook id).map Notebook.unstamped =
    (source.notebook id).map Notebook.unstamped
  tag : ∀ id, (target.tag id).map Tag.unstamped = (source.tag id).map Tag.unstamped
  note : ∀ id, (target.note id).map Note.unstamped = (source.note id).map Note.unstamped
  attached : ∀ pair, target.attached pair = source.attached pair
  resource : ∀ id, (target.resource id).map shelved = (source.resource id).map shelved

/-- There is nothing. -/
structure IsEmpty (contents : Contents) : Prop where
  notebook : ∀ id, contents.notebook id = none
  tag : ∀ id, contents.tag id = none
  note : ∀ id, contents.note id = none
  attached : ∀ pair, contents.attached pair = false
  resource : ∀ id, contents.resource id = none

end Contents

/-- The items of the listings of a store. -/
structure Listing where
  notebooks : List Notebook
  tags : List Tag
  notes : List Note
  noteTags : Uuid → List Tag
  resources : List Resource

namespace Listing

variable (listing : Listing)

/-- The notes and the tags on them. -/
def attachments (notes : List Note) : List (Uuid × Uuid) :=
  notes.flatMap fun note => (listing.noteTags note.id).map fun tag => (note.id, tag.id)

/-- How many there are of each kind. -/
def report : MigrationReport where
  notebooks := listing.notebooks.length
  tags := listing.tags.length
  notes := listing.notes.length
  noteTags := (listing.attachments listing.notes).length
  resources := listing.resources.length

end Listing

/-- The ids of what is left to create. -/
structure Left where
  notebooks : List Uuid
  tags : List Uuid
  notes : List Uuid
  attachments : List (Uuid × Uuid)
  resources : List Uuid

def Left.Has (left : Left) : Entity → Prop
  | .notebook id => id ∈ left.notebooks
  | .tag id => id ∈ left.tags
  | .note id => id ∈ left.notes
  | .noteTag _ _ => False
  | .resource id => id ∈ left.resources

def Listing.left (listing : Listing) : Left where
  notebooks := listing.notebooks.map Notebook.id
  tags := listing.tags.map Tag.id
  notes := listing.notes.map Note.id
  attachments := listing.attachments listing.notes
  resources := listing.resources.map Resource.id

namespace MigrationBackend

variable {S T C D : Type}

/-- The listings of the source have just what it shows, each item once. -/
structure Lists (src : MigrationBackend S C) (fuel : Nat) (source : S) (shown : Contents)
    (listing : Listing) : Prop where
  notebooks : followPages (fun token => src.listNotebooks migrationPage token source) fuel none =
    some (.ok listing.notebooks)
  tags : followPages (fun token => src.listTags migrationPage token source) fuel none =
    some (.ok listing.tags)
  notes : followPages (fun token => src.listNotes migrationPage token source) fuel none =
    some (.ok listing.notes)
  noteTags : ∀ note ∈ listing.notes,
    followPages (fun token => src.listNoteTags note.id migrationPage token source) fuel none =
      some (.ok (listing.noteTags note.id))
  resources : followPages (fun token => src.listResources migrationPage token source) fuel none =
    some (.ok listing.resources)
  notebook : ∀ id notebook, shown.notebook id = some notebook ↔
    notebook ∈ listing.notebooks ∧ notebook.id = id
  tag : ∀ id tag, shown.tag id = some tag ↔ tag ∈ listing.tags ∧ tag.id = id
  note : ∀ id note, shown.note id = some note ↔ note ∈ listing.notes ∧ note.id = id
  attached : ∀ pair, shown.attached pair = true ↔ pair ∈ listing.attachments listing.notes
  resource : ∀ id row, shown.resource id = some row ↔
    (∃ found ∈ listing.resources, found.id = id) ∧ src.readResource id source = .ok row
  tagged : ∀ note ∈ listing.notes, ∀ tag ∈ listing.noteTags note.id, tag ∈ listing.tags
  nodup_notebooks : (listing.notebooks.map Notebook.id).Nodup
  nodup_tags : (listing.tags.map Tag.id).Nodup
  nodup_notes : (listing.notes.map Note.id).Nodup
  nodup_attachments : (listing.attachments listing.notes).Nodup
  nodup_resources : (listing.resources.map Resource.id).Nodup
  live_notebooks : ∀ notebook ∈ listing.notebooks, notebook.deletedAt = none
  live_tags : ∀ tag ∈ listing.tags, tag.deletedAt = none
  live_notes : ∀ note ∈ listing.notes, note.deletedAt = none
  read : ∀ {id row}, src.readResource id source = .ok row → row.1.id = id ∧ row.1.deletedAt = none

section Takes

variable (good : T → Prop) (contents : T → Contents) (unused : T → Entity → Prop)

/-- One entity is changed, and what is shown is what is expected. -/
structure Changes (target after : T) (changed : Entity) (expected : Contents) : Prop where
  good : good after
  contents : contents after = expected
  unused : ∀ entity, entity ≠ changed → unused target entity → unused after entity

/-- The destination creates what has an id that it has not used, and puts a tag on a note when
it shows both. -/
structure Takes (dst : MigrationBackend T D) : Prop where
  createNotebook : ∀ {target now notebook}, good target →
    unused target (.notebook notebook.id) → notebook.deletedAt = none → ∃ after reply stored,
      dst.createNotebook now notebook target = (after, .ok reply) ∧
        stored.unstamped = notebook.unstamped ∧
        Changes good contents unused target after (.notebook notebook.id)
          { contents target with
            notebook := Function.update (contents target).notebook notebook.id (some stored) }
  createTag : ∀ {target now tag}, good target →
    unused target (.tag tag.id) → tag.deletedAt = none → ∃ after reply stored,
      dst.createTag now tag target = (after, .ok reply) ∧ stored.unstamped = tag.unstamped ∧
        Changes good contents unused target after (.tag tag.id)
          { contents target with
            tag := Function.update (contents target).tag tag.id (some stored) }
  createNote : ∀ {target now note}, good target →
    unused target (.note note.id) → note.deletedAt = none → ∃ after reply stored,
      dst.createNote now note target = (after, .ok reply) ∧ stored.unstamped = note.unstamped ∧
        Changes good contents unused target after (.note note.id)
          { contents target with
            note := Function.update (contents target).note note.id (some stored) }
  addNoteTag : ∀ {target now noteTag}, good target →
    (contents target).note noteTag.noteId ≠ none → (contents target).tag noteTag.tagId ≠ none →
      ∃ after reply, dst.addNoteTag now noteTag target = (after, .ok reply) ∧
        Changes good contents unused target after (.noteTag noteTag.noteId noteTag.tagId)
          { contents target with
            attached := Function.update (contents target).attached
              (noteTag.noteId, noteTag.tagId) true }
  createResource : ∀ {target now resource data}, good target →
    unused target (.resource resource.id) → resource.deletedAt = none → ∃ after reply stored,
      dst.createResource now resource data target = (after, .ok reply) ∧
        stored.unstamped = resource.unstamped ∧
        Changes good contents unused target after (.resource resource.id)
          { contents target with
            resource := Function.update (contents target).resource resource.id
              (some (stored, data)) }

end Takes

/-- All is there but some of it. -/
def AllBut {A B : Type} (view : A → B) (left : List Uuid) (shown found : Uuid → Option A) : Prop :=
  ∀ id, (found id).map view = if id ∈ left then none else (shown id).map view

theorem AllBut.create {A B : Type} {view : A → B} {id : Uuid} {rest : List Uuid}
    {shown found : Uuid → Option A} {item stored : A}
    (hbefore : AllBut view (id :: rest) shown found) (hid : id ∉ rest)
    (hshown : shown id = some item) (hstored : view stored = view item) :
    AllBut view rest shown (Function.update found id (some stored)) := by
  intro other
  by_cases hother : other = id
  · subst hother
    rw [Function.update_self, if_neg hid, hshown, Option.map_some, Option.map_some, hstored]
  · rw [Function.update_of_ne hother, hbefore]
    simp [hother]

theorem attached_create {shown found : Uuid × Uuid → Bool} {pair : Uuid × Uuid}
    {rest : List (Uuid × Uuid)}
    (hbefore : ∀ other, found other = (decide (other ∉ pair :: rest) && shown other))
    (hpair : pair ∉ rest) (hshown : shown pair = true) (other : Uuid × Uuid) :
    Function.update found pair true other = (decide (other ∉ rest) && shown other) := by
  by_cases hother : other = pair
  · subst hother
    rw [Function.update_self, hshown, decide_eq_true hpair]
    rfl
  · rw [Function.update_of_ne hother, hbefore]
    simp [hother]

/-- The destination shows what the source does, but for what is left. -/
structure Covers (shown : Contents) (left : Left) (found : Contents) : Prop where
  notebook : AllBut Notebook.unstamped left.notebooks shown.notebook found.notebook
  tag : AllBut Tag.unstamped left.tags shown.tag found.tag
  note : AllBut Note.unstamped left.notes shown.note found.note
  attached : ∀ pair, found.attached pair =
    (decide (pair ∉ left.attachments) && shown.attached pair)
  resource : AllBut Contents.shelved left.resources shown.resource found.resource

/-- What is left has ids that the destination has not used. -/
structure Partly (good : T → Prop) (contents : T → Contents) (unused : T → Entity → Prop)
    (shown : Contents) (left : Left) (target : T) : Prop where
  good : good target
  covers : Covers shown left (contents target)
  unused : ∀ entity, left.Has entity → unused target entity

section Stages

variable {src : MigrationBackend S C} {dst : MigrationBackend T D} {fuel : Nat} {clock : Nat → D}
  {good : T → Prop} {contents : T → Contents} {unused : T → Entity → Prop} {source : S}
  {shown : Contents} {listing : Listing} {state : Migrating T}

theorem Partly.step {left less : Left} {target after : T} {changed : Entity} {expected : Contents}
    (hpartly : Partly good contents unused shown left target)
    (hchanges : Changes good contents unused target after changed expected)
    (hless : ∀ entity, less.Has entity → left.Has entity ∧ entity ≠ changed)
    (hcovers : Covers shown less expected) :
    Partly good contents unused shown less after where
  good := hchanges.good
  covers := by
    rw [hchanges.contents]
    exact hcovers
  unused := by
    intro entity hentity
    obtain ⟨hleft, hne⟩ := hless entity hentity
    exact hchanges.unused entity hne (hpartly.unused entity hleft)

theorem ends_ask {A : Type} {answer : Option (Except StorageError A)} {result : A}
    (hanswer : answer = some (.ok result)) :
    Ends (ask answer) state fun found after => found = result ∧ after = state := by
  refine ⟨.ok result, state, ?_, result, rfl, rfl, rfl⟩
  rw [ask, hanswer]
  rfl

theorem ends_request {call : D → T → T × Except StorageError Reply} {after : T} {reply : Reply}
    (hcall : call (clock state.calls) state.target = (after, .ok reply)) {post : T → Prop}
    (hpost : post after) :
    Ends (request clock call) state fun count final => count = 1 ∧ post final.target := by
  refine ⟨.ok 1, ⟨after, state.calls + 1⟩, ?_, 1, rfl, rfl, hpost⟩
  simp only [request, hcall]
  rfl

theorem head_not_mem {A : Type} {id : A → Uuid} {items rest : List A} {item : A}
    (hnodup : (items.map id).Nodup) (hsuffix : item :: rest <:+ items) :
    id item ∉ rest.map id := by
  have hpart := hnodup.sublist (hsuffix.sublist.map id)
  rw [List.map_cons, List.nodup_cons] at hpart
  exact hpart.1

variable {notebooks tags notes resources : List Uuid} {attachments : List (Uuid × Uuid)}

theorem ends_notebooks (hlists : src.Lists fuel source shown listing)
    (htakes : Takes good contents unused dst)
    (hpartly : Partly good contents unused shown
      ⟨listing.notebooks.map Notebook.id, tags, notes, attachments, resources⟩ state.target) :
    Ends (forEach listing.notebooks fun notebook =>
        request clock fun now => dst.createNotebook now notebook) state
      fun total after => total = listing.notebooks.length ∧
        Partly good contents unused shown ⟨[], tags, notes, attachments, resources⟩
          after.target := by
  refine (Ends.forEach (fun rest (before : Migrating T) => Partly good contents unused shown
    ⟨rest.map Notebook.id, tags, notes, attachments, resources⟩ before.target) (fun _ => 1)
      hpartly ?_).imp ?_
  · intro notebook rest before hsuffix hleft
    have hnotebook := hsuffix.subset List.mem_cons_self
    have hid := head_not_mem hlists.nodup_notebooks hsuffix
    obtain ⟨after, _, stored, hcall, hstored, hchanges⟩ := htakes.createNotebook hleft.good
      (hleft.unused (.notebook notebook.id) List.mem_cons_self)
      (hlists.live_notebooks notebook hnotebook)
    refine ends_request hcall (hleft.step hchanges ?_ { hleft.covers with
      notebook := hleft.covers.notebook.create hid
        ((hlists.notebook _ _).mpr ⟨hnotebook, rfl⟩) hstored })
    intro entity hentity
    cases entity with
    | notebook id =>
        exact ⟨List.mem_cons_of_mem _ hentity, fun heq => hid (Entity.notebook.inj heq ▸ hentity)⟩
    | note | tag | noteTag | resource => exact ⟨hentity, Entity.noConfusion⟩
  · rintro total after ⟨rfl, hdone⟩
    exact ⟨by simp, hdone⟩

theorem ends_tags (hlists : src.Lists fuel source shown listing)
    (htakes : Takes good contents unused dst)
    (hpartly : Partly good contents unused shown
      ⟨notebooks, listing.tags.map Tag.id, notes, attachments, resources⟩ state.target) :
    Ends (forEach listing.tags fun tag => request clock fun now => dst.createTag now tag) state
      fun total after => total = listing.tags.length ∧
        Partly good contents unused shown ⟨notebooks, [], notes, attachments, resources⟩
          after.target := by
  refine (Ends.forEach (fun rest (before : Migrating T) => Partly good contents unused shown
    ⟨notebooks, rest.map Tag.id, notes, attachments, resources⟩ before.target) (fun _ => 1)
      hpartly ?_).imp ?_
  · intro tag rest before hsuffix hleft
    have htag := hsuffix.subset List.mem_cons_self
    have hid := head_not_mem hlists.nodup_tags hsuffix
    obtain ⟨after, _, stored, hcall, hstored, hchanges⟩ := htakes.createTag hleft.good
      (hleft.unused (.tag tag.id) List.mem_cons_self) (hlists.live_tags tag htag)
    refine ends_request hcall (hleft.step hchanges ?_ { hleft.covers with
      tag := hleft.covers.tag.create hid ((hlists.tag _ _).mpr ⟨htag, rfl⟩) hstored })
    intro entity hentity
    cases entity with
    | tag id =>
        exact ⟨List.mem_cons_of_mem _ hentity, fun heq => hid (Entity.tag.inj heq ▸ hentity)⟩
    | note | notebook | noteTag | resource => exact ⟨hentity, Entity.noConfusion⟩
  · rintro total after ⟨rfl, hdone⟩
    exact ⟨by simp, hdone⟩

theorem ends_notes (hlists : src.Lists fuel source shown listing)
    (htakes : Takes good contents unused dst)
    (hpartly : Partly good contents unused shown
      ⟨notebooks, tags, listing.notes.map Note.id, attachments, resources⟩ state.target) :
    Ends (forEach listing.notes fun note => request clock fun now => dst.createNote now note) state
      fun total after => total = listing.notes.length ∧
        Partly good contents unused shown ⟨notebooks, tags, [], attachments, resources⟩
          after.target := by
  refine (Ends.forEach (fun rest (before : Migrating T) => Partly good contents unused shown
    ⟨notebooks, tags, rest.map Note.id, attachments, resources⟩ before.target) (fun _ => 1)
      hpartly ?_).imp ?_
  · intro note rest before hsuffix hleft
    have hnote := hsuffix.subset List.mem_cons_self
    have hid := head_not_mem hlists.nodup_notes hsuffix
    obtain ⟨after, _, stored, hcall, hstored, hchanges⟩ := htakes.createNote hleft.good
      (hleft.unused (.note note.id) List.mem_cons_self) (hlists.live_notes note hnote)
    refine ends_request hcall (hleft.step hchanges ?_ { hleft.covers with
      note := hleft.covers.note.create hid ((hlists.note _ _).mpr ⟨hnote, rfl⟩) hstored })
    intro entity hentity
    cases entity with
    | note id =>
        exact ⟨List.mem_cons_of_mem _ hentity, fun heq => hid (Entity.note.inj heq ▸ hentity)⟩
    | notebook | tag | noteTag | resource => exact ⟨hentity, Entity.noConfusion⟩
  · rintro total after ⟨rfl, hdone⟩
    exact ⟨by simp, hdone⟩

/-- What is shown is there once nothing of its kind is left. -/
theorem AllBut.ne_none {A B : Type} {view : A → B} {shown found : Uuid → Option A}
    (hall : AllBut view [] shown found) {id : Uuid} {item : A} (hshown : shown id = some item) :
    found id ≠ none := by
  intro hnone
  have hsame := hall id
  rw [hnone, hshown] at hsame
  simp at hsame

/-- The tags of one note; those of the notes after it are left. -/
theorem ends_noteTags (hlists : src.Lists fuel source shown listing)
    (htakes : Takes good contents unused dst) {note : Note} {later : List (Uuid × Uuid)}
    (hnote : note ∈ listing.notes)
    (hpairs : (((listing.noteTags note.id).map fun tag => (note.id, tag.id)) ++ later).Nodup)
    (hpartly : Partly good contents unused shown
      ⟨[], [], [], ((listing.noteTags note.id).map fun tag => (note.id, tag.id)) ++ later,
        resources⟩ state.target) :
    Ends (forEach (listing.noteTags note.id) fun tag =>
        request clock fun now => dst.addNoteTag now ⟨note.id, tag.id⟩) state
      fun total after => total = (listing.noteTags note.id).length ∧
        Partly good contents unused shown ⟨[], [], [], later, resources⟩ after.target := by
  refine (Ends.forEach (fun rest (before : Migrating T) => Partly good contents unused shown
    ⟨[], [], [], (rest.map fun tag => (note.id, tag.id)) ++ later, resources⟩ before.target)
      (fun _ => 1) hpartly ?_).imp ?_
  · intro tag rest before hsuffix hleft
    have hlisted := hsuffix.subset List.mem_cons_self
    have htag := hlists.tagged note hnote tag hlisted
    have hout : (note.id, tag.id) ∉ (rest.map fun tag => (note.id, tag.id)) ++ later := by
      have hpart := hpairs.sublist
        ((hsuffix.sublist.map fun tag => (note.id, tag.id)).append_right later)
      rw [List.map_cons, List.cons_append, List.nodup_cons] at hpart
      exact hpart.1
    have hshown : shown.attached (note.id, tag.id) = true :=
      (hlists.attached _).mpr (List.mem_flatMap.mpr
        ⟨note, hnote, List.mem_map.mpr ⟨tag, hlisted, rfl⟩⟩)
    obtain ⟨after, _, hcall, hchanges⟩ := @htakes.addNoteTag before.target (clock before.calls)
      ⟨note.id, tag.id⟩ hleft.good
      (hleft.covers.note.ne_none ((hlists.note _ _).mpr ⟨hnote, rfl⟩))
      (hleft.covers.tag.ne_none ((hlists.tag _ _).mpr ⟨htag, rfl⟩))
    refine ends_request hcall (hleft.step hchanges ?_ { hleft.covers with
      attached := attached_create hleft.covers.attached hout hshown })
    intro entity hentity
    cases entity with
    | noteTag => contradiction
    | note | notebook | tag | resource => exact ⟨hentity, Entity.noConfusion⟩
  · rintro total after ⟨rfl, hdone⟩
    exact ⟨by simp, hdone⟩

theorem ends_attachments (hlists : src.Lists fuel source shown listing)
    (htakes : Takes good contents unused dst)
    (hpartly : Partly good contents unused shown
      ⟨[], [], [], listing.attachments listing.notes, resources⟩ state.target) :
    Ends (forEach listing.notes fun note => do
        let attached ← collect fuel fun token =>
          src.listNoteTags note.id migrationPage token source
        forEach attached fun tag => request clock fun now => dst.addNoteTag now ⟨note.id, tag.id⟩)
      state fun total after => total = (listing.attachments listing.notes).length ∧
        Partly good contents unused shown ⟨[], [], [], [], resources⟩ after.target := by
  refine (Ends.forEach (fun rest (before : Migrating T) => Partly good contents unused shown
    ⟨[], [], [], listing.attachments rest, resources⟩ before.target)
      (fun note => (listing.noteTags note.id).length) hpartly ?_).imp ?_
  · intro note rest before hsuffix hleft
    have hnote := hsuffix.subset List.mem_cons_self
    refine (ends_ask (hlists.noteTags note hnote)).bind ?_
    rintro attached after ⟨rfl, rfl⟩
    refine ends_noteTags hlists htakes hnote ?_ hleft
    have hpart : (listing.attachments (note :: rest)).Nodup :=
      hlists.nodup_attachments.sublist (List.Sublist.flatMap hsuffix.sublist _)
    exact hpart
  · rintro total after ⟨rfl, hdone⟩
    exact ⟨by simp [Listing.attachments, List.length_flatMap], hdone⟩

/-- The bytes of a resource are read, and it is created with them. -/
theorem ends_resource (hlists : src.Lists fuel source shown listing)
    (htakes : Takes good contents unused dst) {resource : Resource} {rest : List Uuid}
    (hresource : resource ∈ listing.resources) (hid : resource.id ∉ rest)
    {row : Resource × List UInt8} (hread : src.readResource resource.id source = .ok row)
    (hpartly : Partly good contents unused shown ⟨[], [], [], [], resource.id :: rest⟩
      state.target) :
    Ends (do
        let (found, data) ← ask (some (src.readResource resource.id source))
        request clock fun now => dst.createResource now found data) state
      fun count after => count = 1 ∧
        Partly good contents unused shown ⟨[], [], [], [], rest⟩ after.target := by
  refine (ends_ask (congrArg some hread)).bind ?_
  rintro ⟨found, data⟩ after ⟨rfl, rfl⟩
  obtain ⟨hfound, hlive⟩ := hlists.read hread
  replace hfound : found.id = resource.id := hfound
  obtain ⟨target, _, stored, hcall, hstored, hchanges⟩ := @htakes.createResource after.target
    (clock after.calls) found data hpartly.good
    (hpartly.unused (.resource found.id) (hfound ▸ List.mem_cons_self)) hlive
  have hshown : shown.resource found.id = some (found, data) :=
    (hlists.resource _ _).mpr ⟨⟨resource, hresource, hfound.symm⟩, hfound ▸ hread⟩
  have hrow : Contents.shelved (stored, data) = Contents.shelved (found, data) :=
    Prod.ext hstored rfl
  have hcovers := hpartly.covers.resource
  rw [← hfound] at hcovers hid
  refine ends_request hcall (hpartly.step hchanges ?_ { hpartly.covers with
    resource := hcovers.create hid hshown hrow })
  intro entity hentity
  cases entity with
  | resource id =>
      exact ⟨List.mem_cons_of_mem _ hentity, fun heq => hid (Entity.resource.inj heq ▸ hentity)⟩
  | note | notebook | tag | noteTag => exact ⟨hentity, Entity.noConfusion⟩

theorem ends_resources (hlists : src.Lists fuel source shown listing)
    (htakes : Takes good contents unused dst)
    (hreadable : ∀ found ∈ listing.resources, ∃ row, src.readResource found.id source = .ok row)
    (hpartly : Partly good contents unused shown
      ⟨[], [], [], [], listing.resources.map Resource.id⟩ state.target) :
    Ends (forEach listing.resources fun found => do
        let (resource, data) ← ask (some (src.readResource found.id source))
        request clock fun now => dst.createResource now resource data) state
      fun total after => total = listing.resources.length ∧
        Partly good contents unused shown ⟨[], [], [], [], []⟩ after.target := by
  refine (Ends.forEach (fun rest (before : Migrating T) => Partly good contents unused shown
    ⟨[], [], [], [], rest.map Resource.id⟩ before.target) (fun _ => 1) hpartly ?_).imp ?_
  · intro resource rest before hsuffix hleft
    have hresource := hsuffix.subset List.mem_cons_self
    obtain ⟨row, hread⟩ := hreadable resource hresource
    exact ends_resource hlists htakes hresource (head_not_mem hlists.nodup_resources hsuffix)
      hread hleft
  · rintro total after ⟨rfl, hdone⟩
    exact ⟨by simp, hdone⟩

theorem fails_resources (hlists : src.Lists fuel source shown listing)
    (htakes : Takes good contents unused dst)
    (hunreadable : ∃ found ∈ listing.resources, ∃ failure,
      src.readResource found.id source = .error failure)
    (hpartly : Partly good contents unused shown
      ⟨[], [], [], [], listing.resources.map Resource.id⟩ state.target) :
    Fails (forEach listing.resources fun found => do
        let (resource, data) ← ask (some (src.readResource found.id source))
        request clock fun now => dst.createResource now resource data) state := by
  refine Fails.forEach (fun rest (before : Migrating T) => Partly good contents unused shown
    ⟨[], [], [], [], rest.map Resource.id⟩ before.target) hpartly hunreadable ?_ ?_
  · intro resource rest before hsuffix hleft hread
    have hresource := hsuffix.subset List.mem_cons_self
    obtain ⟨row, hrow⟩ : ∃ row, src.readResource resource.id source = .ok row := by
      cases hrow : src.readResource resource.id source with
      | error failure => exact absurd ⟨failure, hrow⟩ hread
      | ok row => exact ⟨row, rfl⟩
    refine (ends_resource hlists htakes hresource
      (head_not_mem hlists.nodup_resources hsuffix) hrow hleft).imp ?_
    exact fun count after hdone => hdone.2
  · rintro resource before ⟨failure, hread⟩
    have hask : Fails (ask (some (src.readResource resource.id source))) before :=
      ⟨.error failure, before, by rw [ask, hread]; rfl, failure, rfl⟩
    exact hask.first _

theorem covers_start (hlists : src.Lists fuel source shown listing) {found : Contents}
    (hempty : found.IsEmpty) : Covers shown listing.left found := by
  have hall : ∀ {A B : Type} {view : A → B} {ids : List Uuid} {lookup other : Uuid → Option A},
      (∀ id, other id = none) → (∀ id item, lookup id = some item → id ∈ ids) →
        AllBut view ids lookup other := by
    intro A B view ids lookup other hnone hids id
    rw [hnone, Option.map_none]
    split
    · rfl
    · next hid =>
        cases hitem : lookup id with
        | none => rfl
        | some item => exact absurd (hids id item hitem) hid
  constructor
  · refine hall hempty.notebook fun id notebook hshown => ?_
    obtain ⟨hmem, rfl⟩ := (hlists.notebook id notebook).mp hshown
    exact List.mem_map_of_mem hmem
  · refine hall hempty.tag fun id tag hshown => ?_
    obtain ⟨hmem, rfl⟩ := (hlists.tag id tag).mp hshown
    exact List.mem_map_of_mem hmem
  · refine hall hempty.note fun id note hshown => ?_
    obtain ⟨hmem, rfl⟩ := (hlists.note id note).mp hshown
    exact List.mem_map_of_mem hmem
  · intro pair
    rw [hempty.attached]
    cases hshown : shown.attached pair with
    | false => exact (Bool.and_false _).symm
    | true =>
        have hmem := (hlists.attached pair).mp hshown
        simp [Listing.left, hmem]
  · refine hall hempty.resource fun id row hshown => ?_
    obtain ⟨⟨found, hmem, rfl⟩, -⟩ := (hlists.resource id row).mp hshown
    exact List.mem_map_of_mem hmem

theorem same_of_covers {found : Contents} (hcovers : Covers shown ⟨[], [], [], [], []⟩ found) :
    Contents.Same shown found where
  notebook := hcovers.notebook
  tag := hcovers.tag
  note := hcovers.note
  attached := fun pair => (hcovers.attached pair).trans (by simp)
  resource := hcovers.resource

/-- A migration into an empty store ends.  It fails just if a resource that is listed cannot be
read; otherwise the destination shows the same as the source, and the report counts it. -/
theorem migrate_leads (hlists : src.Lists fuel source shown listing)
    (htakes : Takes good contents unused dst) {target : T} (hgood : good target)
    (hempty : (contents target).IsEmpty) (hunused : ∀ entity, unused target entity) :
    Leads (migrate src dst fuel clock source) ⟨target, 0⟩ fun outcome after =>
      match outcome with
      | .ok report => (∀ found ∈ listing.resources, ∃ row,
            src.readResource found.id source = .ok row) ∧
          report = listing.report ∧ Contents.Same shown (contents after.target)
      | .error _ => ∃ found ∈ listing.resources, ∃ failure,
          src.readResource found.id source = .error failure := by
  have hstart : Partly good contents unused shown listing.left
      (⟨target, 0⟩ : Migrating T).target :=
    ⟨hgood, covers_start hlists hempty, fun entity _ => hunused entity⟩
  refine (ends_ask hlists.notebooks).thenLeads ?_
  rintro _ _ ⟨rfl, rfl⟩
  refine (ends_notebooks hlists htakes hstart).thenLeads ?_
  rintro _ created ⟨rfl, hnotebooks⟩
  refine (ends_ask hlists.tags).thenLeads ?_
  rintro _ _ ⟨rfl, rfl⟩
  refine (ends_tags hlists htakes hnotebooks).thenLeads ?_
  rintro _ tagged ⟨rfl, htags⟩
  refine (ends_ask hlists.notes).thenLeads ?_
  rintro _ _ ⟨rfl, rfl⟩
  refine (ends_notes hlists htakes htags).thenLeads ?_
  rintro _ noted ⟨rfl, hnotes⟩
  refine (ends_attachments hlists htakes hnotes).thenLeads ?_
  rintro _ attached ⟨rfl, hattached⟩
  refine (ends_ask hlists.resources).thenLeads ?_
  rintro _ _ ⟨rfl, rfl⟩
  by_cases hreadable : ∀ found ∈ listing.resources, ∃ row,
      src.readResource found.id source = .ok row
  · refine (ends_resources hlists htakes hreadable hattached).thenLeads ?_
    rintro _ final ⟨rfl, hdone⟩
    exact ⟨_, final, rfl, hreadable, rfl, same_of_covers hdone.covers⟩
  · have hunreadable : ∃ found ∈ listing.resources, ∃ failure,
        src.readResource found.id source = .error failure := by
      push Not at hreadable
      obtain ⟨found, hfound, hnone⟩ := hreadable
      cases hread : src.readResource found.id source with
      | error failure => exact ⟨found, hfound, failure, hread⟩
      | ok row => exact absurd hread (hnone row)
    refine ((fails_resources hlists htakes hunreadable hattached).first _).imp ?_
    rintro _ final ⟨failure, rfl⟩
    exact hunreadable

end Stages

section Followers

variable {S' C' T' : Type} {rel : T' → T → Prop}

/-- A store that is asked just what another is, and answers the same. -/
structure AnswersAs (src : MigrationBackend S' C') (source : S') (other : MigrationBackend S C)
    (plain : S) : Prop where
  notebooks : ∀ pageSize token,
    src.listNotebooks pageSize token source = other.listNotebooks pageSize token plain
  tags : ∀ pageSize token,
    src.listTags pageSize token source = other.listTags pageSize token plain
  notes : ∀ pageSize token,
    src.listNotes pageSize token source = other.listNotes pageSize token plain
  noteTags : ∀ noteId pageSize token,
    src.listNoteTags noteId pageSize token source = other.listNoteTags noteId pageSize token plain
  resources : ∀ pageSize token,
    src.listResources pageSize token source = other.listResources pageSize token plain
  resource : ∀ id, src.readResource id source = other.readResource id plain

/-- A call of one store does what it does of the other. -/
def Alike (rel : T' → T → Prop) (call : T' → T' × Except StorageError Reply)
    (other : T → T × Except StorageError Reply) : Prop :=
  ∀ target plain, rel target plain →
    rel (call target).1 (other plain).1 ∧ (call target).2 = (other plain).2

/-- A store that is given just what another is, and goes the same way. -/
structure WritesAs (rel : T' → T → Prop) (dst : MigrationBackend T' D)
    (other : MigrationBackend T D) : Prop where
  createNotebook : ∀ now notebook,
    Alike rel (dst.createNotebook now notebook) (other.createNotebook now notebook)
  createTag : ∀ now tag, Alike rel (dst.createTag now tag) (other.createTag now tag)
  createNote : ∀ now note, Alike rel (dst.createNote now note) (other.createNote now note)
  addNoteTag : ∀ now noteTag, Alike rel (dst.addNoteTag now noteTag) (other.addNoteTag now noteTag)
  createResource : ∀ now resource data,
    Alike rel (dst.createResource now resource data) (other.createResource now resource data)

/-- The destinations are related, and as many calls have been made. -/
def Beside (rel : T' → T → Prop) (state : Migrating T') (plain : Migrating T) : Prop :=
  rel state.target plain.target ∧ state.calls = plain.calls

theorem tracks_ask {A : Type} (answer : Option (Except StorageError A)) :
    Tracks (Beside rel) (ask answer) (ask answer) := by
  intro state plain hrel
  rw [ask, ask]
  cases answer with
  | none => exact .none
  | some result => exact .some ⟨hrel, rfl⟩

theorem tracks_request {clock : Nat → D} {call : D → T' → T' × Except StorageError Reply}
    {other : D → T → T × Except StorageError Reply}
    (halike : ∀ now, Alike rel (call now) (other now)) :
    Tracks (Beside rel) (request clock call) (request clock other) := by
  rintro ⟨target, calls⟩ ⟨plain, made⟩ ⟨hrel, hcalls⟩
  replace hcalls : calls = made := hcalls
  subst hcalls
  obtain ⟨hafter, hsame⟩ := halike (clock calls) target plain hrel
  refine .some ⟨⟨hafter, rfl⟩, ?_⟩
  exact congrArg (fun result => result.map fun _ => 1) hsame

/-- Two migrations go the same way if the sources answer alike and the destinations take
alike what they are given. -/
theorem migrate_tracks {src : MigrationBackend S' C'} {source : S'} {other : MigrationBackend S C}
    {plain : S} {dst : MigrationBackend T' D} {given : MigrationBackend T D}
    (hanswers : src.AnswersAs source other plain) (hwrites : WritesAs rel dst given) (fuel : Nat)
    (clock : Nat → D) :
    Tracks (Beside rel) (migrate src dst fuel clock source)
      (migrate other given fuel clock plain) := by
  simp only [migrate, hanswers.notebooks, hanswers.tags, hanswers.notes, hanswers.noteTags,
    hanswers.resources, hanswers.resource]
  refine (tracks_ask _).bind fun notebooks => ?_
  refine (Tracks.forEach (fun notebook => tracks_request fun now =>
    hwrites.createNotebook now notebook) notebooks).bind fun _ => ?_
  refine (tracks_ask _).bind fun tags => ?_
  refine (Tracks.forEach (fun tag => tracks_request fun now =>
    hwrites.createTag now tag) tags).bind fun _ => ?_
  refine (tracks_ask _).bind fun notes => ?_
  refine (Tracks.forEach (fun note => tracks_request fun now =>
    hwrites.createNote now note) notes).bind fun _ => ?_
  refine (Tracks.forEach (fun note => ?_) notes).bind fun _ => ?_
  · refine (tracks_ask _).bind fun attached => ?_
    exact Tracks.forEach (fun tag => tracks_request fun now =>
      hwrites.addNoteTag now ⟨note.id, tag.id⟩) attached
  · refine (tracks_ask _).bind fun resources => ?_
    refine (Tracks.forEach (fun found => ?_) resources).bind fun _ => .pure _
    refine (tracks_ask _).bind fun row => ?_
    exact tracks_request fun now => hwrites.createResource now row.1 row.2

end Followers

end MigrationBackend

end Keeplin
