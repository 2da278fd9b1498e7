/-
What stands in the rows behind the encrypting decorator: what was sealed, or the
empty texts of a row that a delete of an unknown id has left.
-/
import Keeplin.SealedCalls

namespace Keeplin

/-- Every row of a table meets the condition. -/
def EveryRow {R : Type} (condition : Uuid → R → Prop) (table : Table R) : Prop :=
  ∀ (id : Uuid) (row : R), table[id]? = some row → condition id row

section Tables

variable {R : Type} {condition : Uuid → R → Prop} {table : Table R}

theorem EveryRow.insert (hevery : EveryRow condition table) {id : Uuid} {row : R}
    (hrow : condition id row) : EveryRow condition (table.insert id row) := by
  intro other found hfound
  rw [Std.ExtTreeMap.getElem?_insert] at hfound
  split at hfound
  · next hsame =>
      obtain rfl := Option.some.inj hfound
      exact Std.LawfulEqCmp.compare_eq_iff_eq.mp hsame ▸ hrow
  · exact hevery other found hfound

theorem EveryRow.map (hevery : EveryRow condition table) {change : R → R}
    (hchange : ∀ id row, condition id row → condition id (change row)) :
    EveryRow condition (table.map fun _ row => change row) := by
  intro id found hfound
  rw [Std.ExtTreeMap.getElem?_map, Option.map_eq_some_iff] at hfound
  obtain ⟨row, hrow, rfl⟩ := hfound
  exact hchange id row (hevery id row hrow)

end Tables

/-- A resource that a call writes has an id of 128 bits. -/
def RepositoryCall.NamesUuid : RepositoryCall → Prop
  | .createResource resource _ _ => IsUuid resource.id
  | .applyChange change _ => ∀ id, change.entity = .resource id → IsUuid id
  | _ => True

namespace Cipher

variable (cipher : Cipher)

/-- Whether a text, or what an entity says, opens. -/
def Opens {A B : Type} (opens : B → Except StorageError A) (item : B) : Prop :=
  ∃ plain, opens item = .ok plain

/-- A row was sealed, or it is a tombstone that was not. -/
def NoteSealed (row : NoteRow) : Prop :=
  Opens cipher.openNote row.content ∨ (row.title = "" ∧ row.deletedAt ≠ none)

def NotebookSealed (row : NotebookRow) : Prop :=
  Opens cipher.openNotebook row.content ∨ (row.title = "" ∧ row.deletedAt ≠ none)

def TagSealed (row : TagRow) : Prop :=
  Opens cipher.decryptStr row.title ∨ (row.title = "" ∧ row.deletedAt ≠ none)

/-- A resource that was never sealed has no payload, and one whose payload did not
come with it has an empty one.  The ids have 128 bits. -/
def ResourceSealed (id : Uuid) (row : ResourceRow) : Prop :=
  IsUuid id ∧ ((Opens cipher.openResource row.content ∧
      ∀ data ∈ row.data, data = [] ∨ Opens cipher.decryptBytes data) ∨
    (row.title = "" ∧ row.data = none))

/-- What the entity of a change says was sealed. -/
def ChangeSealed : Change → Prop
  | .noteCreate note | .noteUpdate note => Opens cipher.openNote note.content
  | .notebookCreate notebook | .notebookUpdate notebook =>
      Opens cipher.openNotebook notebook.content
  | .tagCreate tag | .tagUpdate tag => Opens cipher.decryptStr tag.title
  | .resourceCreate resource data => Opens cipher.openResource resource.content ∧
      ∀ payload ∈ data, Opens cipher.decryptBytes payload
  | _ => True

structure Sealed (db : Db) : Prop where
  notes : EveryRow (fun _ => cipher.NoteSealed) db.notes
  notebooks : EveryRow (fun _ => cipher.NotebookSealed) db.notebooks
  tags : EveryRow (fun _ => cipher.TagSealed) db.tags
  resources : EveryRow cipher.ResourceSealed db.resources
  journal : ∀ entry ∈ db.entityChanges, cipher.ChangeSealed entry.change

variable {cipher} {db after : Db}

theorem decNote_of_opens {note : Note} (hopens : Opens cipher.openNote note.content) :
    cipher.decNote note = .ok (cipher.revealNote note) := by
  obtain ⟨content, hcontent⟩ := hopens
  rw [decNote_eq, hcontent, revealNote, reveal_of_ok hcontent]
  rfl

theorem decNotebook_of_opens {notebook : Notebook}
    (hopens : Opens cipher.openNotebook notebook.content) :
    cipher.decNotebook notebook = .ok (cipher.revealNotebook notebook) := by
  obtain ⟨content, hcontent⟩ := hopens
  rw [decNotebook_eq, hcontent, revealNotebook, reveal_of_ok hcontent]
  rfl

theorem decTag_of_opens {tag : Tag} (hopens : Opens cipher.decryptStr tag.title) :
    cipher.decTag tag = .ok (cipher.revealTag tag) := by
  obtain ⟨title, htitle⟩ := hopens
  rw [decTag_eq, htitle, revealTag, reveal_of_ok htitle]
  rfl

theorem decResource_of_opens {resource : Resource}
    (hopens : Opens cipher.openResource resource.content) :
    cipher.decResource resource = .ok (cipher.revealResource resource) := by
  obtain ⟨content, hcontent⟩ := hopens
  rw [decResource_eq, hcontent, revealResource, reveal_of_ok hcontent]
  rfl

namespace Sealed

variable (hsealed : cipher.Sealed db)
include hsealed

theorem putNote {row : NoteRow} (hrow : cipher.NoteSealed row) (id : Uuid) :
    cipher.Sealed { db with notes := db.notes.insert id row } :=
  { hsealed with notes := hsealed.notes.insert hrow }

theorem putNotebook {row : NotebookRow} (hrow : cipher.NotebookSealed row) (id : Uuid) :
    cipher.Sealed { db with notebooks := db.notebooks.insert id row } :=
  { hsealed with notebooks := hsealed.notebooks.insert hrow }

theorem putTag {row : TagRow} (hrow : cipher.TagSealed row) (id : Uuid) :
    cipher.Sealed { db with tags := db.tags.insert id row } :=
  { hsealed with tags := hsealed.tags.insert hrow }

theorem putResource {id : Uuid} {row : ResourceRow} (hrow : cipher.ResourceSealed id row) :
    cipher.Sealed { db with resources := db.resources.insert id row } :=
  { hsealed with resources := hsealed.resources.insert hrow }

theorem changeResources {change : ResourceRow → ResourceRow}
    (hchange : ∀ id row, cipher.ResourceSealed id row → cipher.ResourceSealed id (change row)) :
    cipher.Sealed { db with resources := db.resources.map fun _ row => change row } :=
  { hsealed with resources := hsealed.resources.map hchange }

theorem recordChange {change : Change} (hchange : cipher.ChangeSealed change)
    (changedAt : DateTime) : cipher.Sealed (db.recordChange changedAt change) := by
  refine { hsealed with journal := fun entry hentry => ?_ }
  rcases List.mem_append.mp hentry with hold | hnew
  · exact hsealed.journal entry hold
  · rw [List.mem_singleton.mp hnew]
    exact hchange

theorem refreshNoteLinks (note : Note) : cipher.Sealed (db.refreshNoteLinks note) :=
  ⟨hsealed.notes, hsealed.notebooks, hsealed.tags, hsealed.resources, hsealed.journal⟩

theorem upsertAssoc (noteId tagId : Uuid) (updatedAt : DateTime) (deletedAt : Option DateTime)
    (vv : VersionVector) (lastWriter : String) :
    cipher.Sealed (db.upsertAssoc noteId tagId updatedAt deletedAt vv lastWriter) :=
  ⟨hsealed.notes, hsealed.notebooks, hsealed.tags, hsealed.resources, hsealed.journal⟩

theorem cascadeStampResources (noteId : Uuid) (deletedAt : DateTime) :
    cipher.Sealed (db.cascadeStampResources noteId deletedAt) := by
  refine hsealed.changeResources fun id row hrow => ?_
  split
  · exact hrow
  · exact hrow

theorem cascadeUnstampResources (noteId : Uuid) (deletedAt : DateTime) :
    cipher.Sealed (db.cascadeUnstampResources noteId deletedAt) := by
  refine hsealed.changeResources fun id row hrow => ?_
  split
  · exact hrow
  · exact hrow

theorem restoreResources (note : Note) (priorDeleted : Option DateTime) :
    cipher.Sealed (db.restoreResources note priorDeleted) := by
  unfold Db.restoreResources
  split
  · exact hsealed.cascadeUnstampResources note.id _
  · exact hsealed

theorem createNote {note : Note} (hnote : Opens cipher.openNote note.content)
    (changedAt : DateTime) :
    cipher.Sealed (settled db (db.createNote note changedAt)) := by
  unfold Db.createNote
  dsimp only
  split
  · exact hsealed
  · refine Sealed.recordChange (.refreshNoteLinks (hsealed.putNote (.inl ?_) note.id) _) ?_
      changedAt
    · exact hnote
    · exact hnote

theorem updateNote {note : Note} (hnote : Opens cipher.openNote note.content)
    (changedAt : DateTime) :
    cipher.Sealed (settled db (db.updateNote note changedAt)) := by
  unfold Db.updateNote
  dsimp only
  split
  · exact hsealed
  · next row hrow =>
      refine Sealed.recordChange (.refreshNoteLinks (.restoreResources
        (hsealed.putNote (.inl ?_) note.id) _ _) _) ?_ changedAt
      · exact hnote
      · exact hnote

theorem deleteNote (id : Uuid) (ts changedAt : DateTime) :
    cipher.Sealed (settled db ((db.deleteNote id ts changedAt).map (·, Reply.done))) := by
  unfold Db.deleteNote
  dsimp only
  split
  · exact hsealed
  · next row hrow =>
      refine Sealed.recordChange (.cascadeStampResources (hsealed.putNote ?_ id) id ts) ?_ changedAt
      · exact (hsealed.notes id row hrow).imp_right fun hempty =>
          ⟨hempty.1, Option.some_ne_none ts⟩
      · trivial

theorem createNotebook {notebook : Notebook}
    (hnotebook : Opens cipher.openNotebook notebook.content)
    (changedAt : DateTime) : cipher.Sealed (settled db (db.createNotebook notebook changedAt)) := by
  unfold Db.createNotebook
  dsimp only
  split
  · exact hsealed
  · refine Sealed.recordChange (hsealed.putNotebook (.inl ?_) notebook.id) ?_ changedAt
    · exact hnotebook
    · exact hnotebook

theorem updateNotebook {notebook : Notebook}
    (hnotebook : Opens cipher.openNotebook notebook.content)
    (changedAt : DateTime) : cipher.Sealed (settled db (db.updateNotebook notebook changedAt)) := by
  unfold Db.updateNotebook
  dsimp only
  split
  · exact hsealed
  · refine Sealed.recordChange (hsealed.putNotebook (.inl ?_) notebook.id) ?_ changedAt
    · exact hnotebook
    · exact hnotebook

theorem deleteNotebook (id : Uuid) (ts changedAt : DateTime) :
    cipher.Sealed (settled db ((db.deleteNotebook id ts changedAt).map (·, Reply.done))) := by
  unfold Db.deleteNotebook
  dsimp only
  split
  · exact hsealed
  · next row hrow =>
      refine Sealed.recordChange (hsealed.putNotebook ?_ id) ?_ changedAt
      · exact (hsealed.notebooks id row hrow).imp_right fun hempty =>
          ⟨hempty.1, Option.some_ne_none ts⟩
      · trivial

theorem createTag {tag : Tag} (htag : Opens cipher.decryptStr tag.title) (changedAt : DateTime) :
    cipher.Sealed (settled db (db.createTag tag changedAt)) := by
  unfold Db.createTag
  dsimp only
  split
  · exact hsealed
  · refine Sealed.recordChange (hsealed.putTag (.inl ?_) tag.id) ?_ changedAt
    · exact htag
    · exact htag

theorem updateTag {tag : Tag} (htag : Opens cipher.decryptStr tag.title) (changedAt : DateTime) :
    cipher.Sealed (settled db (db.updateTag tag changedAt)) := by
  unfold Db.updateTag
  dsimp only
  split
  · exact hsealed
  · refine Sealed.recordChange (hsealed.putTag (.inl ?_) tag.id) ?_ changedAt
    · exact htag
    · exact htag

theorem deleteTag (id : Uuid) (ts changedAt : DateTime) :
    cipher.Sealed (settled db ((db.deleteTag id ts changedAt).map (·, Reply.done))) := by
  unfold Db.deleteTag
  dsimp only
  split
  · exact hsealed
  · next row hrow =>
      refine Sealed.recordChange (hsealed.putTag ?_ id) ?_ changedAt
      · exact (hsealed.tags id row hrow).imp_right fun hempty =>
          ⟨hempty.1, Option.some_ne_none ts⟩
      · trivial

theorem addNoteTag (noteTag : NoteTag) (ts changedAt : DateTime) :
    cipher.Sealed (settled db ((db.addNoteTag noteTag ts changedAt).map (·, Reply.done))) := by
  unfold Db.addNoteTag
  dsimp only
  split
  · exact hsealed
  · split
    · exact hsealed
    · refine Sealed.recordChange (hsealed.upsertAssoc _ _ _ _ _ _) ?_ changedAt
      trivial

theorem removeNoteTag (noteId tagId : Uuid) (ts changedAt : DateTime) :
    cipher.Sealed
      (settled db ((db.removeNoteTag noteId tagId ts changedAt).map (·, Reply.done))) := by
  refine Sealed.recordChange (hsealed.upsertAssoc _ _ _ _ _ _) ?_ changedAt
  trivial

theorem createResource {resource : Resource} {data : List UInt8}
    (hresource : Opens cipher.openResource resource.content)
    (hdata : Opens cipher.decryptBytes data) (hid : IsUuid resource.id) (changedAt : DateTime) :
    cipher.Sealed (settled db (db.createResource resource data changedAt)) := by
  unfold Db.createResource
  dsimp only
  split
  · exact hsealed
  · refine Sealed.recordChange (hsealed.putResource ⟨hid, .inl ?_⟩) ?_ changedAt
    · refine ⟨hresource, ?_⟩
      rintro payload ⟨⟩
      exact .inr hdata
    · refine ⟨hresource, ?_⟩
      rintro payload ⟨⟩
      exact hdata

theorem deleteResource (id : Uuid) (ts changedAt : DateTime) :
    cipher.Sealed (settled db ((db.deleteResource id ts changedAt).map (·, Reply.done))) := by
  unfold Db.deleteResource
  dsimp only
  split
  · exact hsealed
  · next row hrow =>
      refine Sealed.recordChange (hsealed.putResource ?_) ?_ changedAt
      · exact hsealed.resources id row hrow
      · trivial

theorem purgeDeletedResources (olderThan : DateTime) :
    cipher.Sealed (db.purgeDeletedResources olderThan).1 := by
  refine hsealed.changeResources fun id row hrow => ?_
  split
  · refine ⟨hrow.1, hrow.2.imp (fun hopens => ⟨hopens.1, fun data hdata => ?_⟩) fun hempty => ?_⟩
    · contradiction
    · exact ⟨hempty.1, rfl⟩
  · exact hrow

theorem pruneChangeJournal (olderThan : DateTime) :
    cipher.Sealed (db.pruneChangeJournal olderThan).1 :=
  { hsealed with
    journal := fun entry hentry => hsealed.journal entry (List.mem_of_mem_filter hentry) }

theorem applyChange {change : Change} (hids : ∀ id, change.entity = .resource id → IsUuid id)
    (hchange : cipher.ChangeSealed change) : cipher.Sealed (db.applyChange change) := by
  cases change with
  | noteCreate note | noteUpdate note =>
      simp only [Db.applyChange, Db.applyNote]
      split
      · refine .restoreResources ((hsealed.refreshNoteLinks note).putNote (.inl ?_) note.id) _ _
        exact hchange
      · exact hsealed
  | noteDelete id deletedAt vv lastWriter =>
      simp only [Db.applyChange, Db.applyNoteDelete]
      split
      · refine .cascadeStampResources (hsealed.putNote ?_ id) id deletedAt
        split
        · next row hrow =>
            exact (hsealed.notes id row hrow).imp_right fun hempty =>
              ⟨hempty.1, Option.some_ne_none deletedAt⟩
        · exact .inr ⟨rfl, Option.some_ne_none deletedAt⟩
      · exact hsealed
  | notebookCreate notebook | notebookUpdate notebook =>
      simp only [Db.applyChange, Db.applyNotebook]
      split
      · refine hsealed.putNotebook (.inl ?_) notebook.id
        exact hchange
      · exact hsealed
  | notebookDelete id deletedAt vv lastWriter =>
      simp only [Db.applyChange, Db.applyNotebookDelete]
      split
      · refine hsealed.putNotebook ?_ id
        split
        · next row hrow =>
            exact (hsealed.notebooks id row hrow).imp_right fun hempty =>
              ⟨hempty.1, Option.some_ne_none deletedAt⟩
        · exact .inr ⟨rfl, Option.some_ne_none deletedAt⟩
      · exact hsealed
  | tagCreate tag | tagUpdate tag =>
      simp only [Db.applyChange, Db.applyTag]
      split
      · refine hsealed.putTag (.inl ?_) tag.id
        exact hchange
      · exact hsealed
  | tagDelete id deletedAt vv lastWriter =>
      simp only [Db.applyChange, Db.applyTagDelete]
      split
      · refine hsealed.putTag ?_ id
        split
        · next row hrow =>
            exact (hsealed.tags id row hrow).imp_right fun hempty =>
              ⟨hempty.1, Option.some_ne_none deletedAt⟩
        · exact .inr ⟨rfl, Option.some_ne_none deletedAt⟩
      · exact hsealed
  | noteTagAdd noteId tagId updatedAt vv lastWriter
  | noteTagRemove noteId tagId updatedAt vv lastWriter =>
      simp only [Db.applyChange, Db.applyNoteTag]
      split
      · exact hsealed.upsertAssoc _ _ _ _ _ _
      · exact hsealed
  | resourceCreate resource data =>
      simp only [Db.applyChange, Db.applyResource]
      split
      · refine hsealed.putResource ⟨hids resource.id rfl, .inl ?_⟩
        refine ⟨hchange.1, ?_⟩
        rintro payload ⟨⟩
        cases data with
        | none => exact .inl rfl
        | some data => exact .inr (hchange.2 data rfl)
      · exact hsealed
  | resourceDelete id deletedAt vv lastWriter =>
      simp only [Db.applyChange, Db.applyResourceDelete]
      split
      · refine hsealed.putResource ?_
        split
        · next row hrow => exact hsealed.resources id row hrow
        · exact ⟨hids id rfl, .inr ⟨rfl, rfl⟩⟩
      · exact hsealed

end Sealed

theorem inner_write {A : Type} {seals : A → StateM Rng A} {opens : A → Except StorageError A}
    {reply : A → Reply} {call : Db → A → Except StorageError (Db × A)} (backend : EncryptedBackend)
    (item : A) : (backend.write seals opens reply call item).1.inner =
      settled backend.inner (call backend.inner (seals item backend.rng).1) := by
  unfold EncryptedBackend.write
  dsimp only
  split
  · next inner stored hdone => rw [hdone]; rfl
  · next failure hfailed => rw [hfailed]; rfl

theorem Sealed.settle {backend : EncryptedBackend} {result : Except StorageError (Db × Reply)}
    (hsealed : cipher.Sealed (settled backend.inner result)) :
    cipher.Sealed (backend.settle result).1.inner := by
  cases result <;> exact hsealed

section Seals

variable (hlawful : cipher.Lawful)
include hlawful

theorem opens_encNote (note : Note) (rng : Rng) :
    Opens cipher.openNote (cipher.encNote note rng).1.content := by
  have hopens := undoes_encNote hlawful note rng
  rw [decNote_eq] at hopens
  obtain ⟨content, hcontent, -⟩ := exists_of_map_ok hopens
  exact ⟨content, hcontent⟩

theorem opens_encNotebook (notebook : Notebook) (rng : Rng) :
    Opens cipher.openNotebook (cipher.encNotebook notebook rng).1.content := by
  have hopens := undoes_encNotebook hlawful notebook rng
  rw [decNotebook_eq] at hopens
  obtain ⟨content, hcontent, -⟩ := exists_of_map_ok hopens
  exact ⟨content, hcontent⟩

theorem opens_encTag (tag : Tag) (rng : Rng) :
    Opens cipher.decryptStr (cipher.encTag tag rng).1.title := by
  have hopens := undoes_encTag hlawful tag rng
  rw [decTag_eq] at hopens
  obtain ⟨title, htitle, -⟩ := exists_of_map_ok hopens
  exact ⟨title, htitle⟩

theorem opens_encResource (resource : Resource) (rng : Rng) :
    Opens cipher.openResource (cipher.encResource resource rng).1.content := by
  have hopens := undoes_encResource hlawful resource rng
  rw [decResource_eq] at hopens
  obtain ⟨content, hcontent, -⟩ := exists_of_map_ok hopens
  exact ⟨content, hcontent⟩

theorem opens_encryptBytes (data : List UInt8) (rng : Rng) :
    Opens cipher.decryptBytes (cipher.encryptBytes data rng).1 :=
  ⟨data, undoes_encryptBytes hlawful data rng⟩

theorem changeSealed_encChange (change : Change) (rng : Rng) :
    cipher.ChangeSealed (cipher.encChange change rng).1 := by
  cases change with
  | noteCreate note | noteUpdate note => exact opens_encNote hlawful note rng
  | notebookCreate notebook | notebookUpdate notebook =>
      exact opens_encNotebook hlawful notebook rng
  | tagCreate tag | tagUpdate tag => exact opens_encTag hlawful tag rng
  | resourceCreate resource data =>
      refine ⟨opens_encResource hlawful resource rng, ?_⟩
      cases data with
      | none =>
          intro payload hpayload
          contradiction
      | some data =>
          intro payload hpayload
          obtain rfl : payload =
              (cipher.encryptBytes data (cipher.encResource resource rng).2).1 :=
            (Option.some.inj hpayload).symm
          exact opens_encryptBytes hlawful data _
  | noteDelete | notebookDelete | tagDelete | noteTagAdd | noteTagRemove | resourceDelete =>
      exact trivial

omit hlawful in
theorem entity_encChange (change : Change) (rng : Rng) :
    (cipher.encChange change rng).1.entity = change.entity := by
  cases change <;> rfl

theorem Sealed.serve {backend : EncryptedBackend} (hsealed : cipher.Sealed backend.inner)
    {call : RepositoryCall} (hids : call.NamesUuid) :
    cipher.Sealed (EncryptedBackend.serve cipher backend call).1.inner := by
  cases call with
  | createNote note changedAt =>
      rw [EncryptedBackend.serve, EncryptedBackend.createNote, inner_write]
      exact hsealed.createNote (opens_encNote hlawful note backend.rng) changedAt
  | updateNote note changedAt =>
      rw [EncryptedBackend.serve, EncryptedBackend.updateNote, inner_write]
      exact hsealed.updateNote (opens_encNote hlawful note backend.rng) changedAt
  | createNotebook notebook changedAt =>
      rw [EncryptedBackend.serve, EncryptedBackend.createNotebook, inner_write]
      exact hsealed.createNotebook (opens_encNotebook hlawful notebook backend.rng) changedAt
  | updateNotebook notebook changedAt =>
      rw [EncryptedBackend.serve, EncryptedBackend.updateNotebook, inner_write]
      exact hsealed.updateNotebook (opens_encNotebook hlawful notebook backend.rng) changedAt
  | createTag tag changedAt =>
      rw [EncryptedBackend.serve, EncryptedBackend.createTag, inner_write]
      exact hsealed.createTag (opens_encTag hlawful tag backend.rng) changedAt
  | updateTag tag changedAt =>
      rw [EncryptedBackend.serve, EncryptedBackend.updateTag, inner_write]
      exact hsealed.updateTag (opens_encTag hlawful tag backend.rng) changedAt
  | createResource resource data changedAt =>
      rw [EncryptedBackend.serve, EncryptedBackend.createResource, inner_write]
      exact hsealed.createResource (opens_encResource hlawful resource _)
        (opens_encryptBytes hlawful data backend.rng) hids changedAt
  | deleteNote id ts changedAt =>
      exact .settle (hsealed.deleteNote id ts changedAt)
  | deleteNotebook id ts changedAt =>
      exact .settle (hsealed.deleteNotebook id ts changedAt)
  | deleteTag id ts changedAt =>
      exact .settle (hsealed.deleteTag id ts changedAt)
  | addNoteTag noteTag ts changedAt =>
      exact .settle (hsealed.addNoteTag noteTag ts changedAt)
  | removeNoteTag noteId tagId ts changedAt =>
      exact .settle (hsealed.removeNoteTag noteId tagId ts changedAt)
  | deleteResource id ts changedAt =>
      exact .settle (hsealed.deleteResource id ts changedAt)
  | purgeDeletedResources olderThan => exact hsealed.purgeDeletedResources olderThan
  | applyChange change peer =>
      refine hsealed.applyChange (fun id hid => hids id ?_)
          (changeSealed_encChange hlawful change peer)
      rwa [entity_encChange] at hid
  | updateSyncTime ts =>
      exact ⟨hsealed.notes, hsealed.notebooks, hsealed.tags, hsealed.resources, hsealed.journal⟩
  | pruneChangeJournal olderThan => exact hsealed.pruneChangeJournal olderThan

theorem Sealed.serveAll {backend : EncryptedBackend} (hsealed : cipher.Sealed backend.inner)
    {calls : List RepositoryCall} (hids : ∀ call ∈ calls, call.NamesUuid) :
    cipher.Sealed (EncryptedBackend.serveAll cipher backend calls).inner := by
  induction calls generalizing backend with
  | nil => exact hsealed
  | cons call rest ih =>
      exact ih (hsealed.serve hlawful (hids call List.mem_cons_self)) fun later hlater =>
        hids later (List.mem_cons_of_mem call hlater)

end Seals

end Cipher

end Keeplin
