/-
The request that updates a note, over gRPC and over REST: how it becomes a note, and
when it moves the note only as the calls that order notes can.
-/
import Keeplin.OrderEdits
import Keeplin.PageTokens

namespace Keeplin

structure ProtoBookmark where
  number : Nat
  text : String
  «alias» : String
deriving DecidableEq, Repr

structure ProtoNoteLink where
  source : String
  raw : String
  targetNoteId : Option String
deriving DecidableEq, Repr

structure ProtoNote where
  id : String
  title : String
  body : String
  notebookId : Option String
  isTodo : Bool
  todoDue : Option String
  todoCompleted : Option String
  createdAt : String
  updatedAt : String
  deletedAt : Option String
  «alias» : Option String
  bookmarks : List ProtoBookmark
  links : List ProtoNoteLink
  isPinned : Bool
  isStarred : Bool
  sortKey : Nat
deriving DecidableEq, Repr

inductive StatusCode where
  | notFound
  | dataLoss
  | alreadyExists
  | invalidArgument
  | outOfRange
  | internal
deriving DecidableEq, Repr

/-- The text of a status, by what it is written from. -/
inductive StatusText where
  | message (text : String)
  | id (id : Uuid)
  | failure (failure : StorageError)
deriving DecidableEq, Repr

structure Status where
  code : StatusCode
  text : StatusText
deriving DecidableEq, Repr

namespace Status

def invalidArgument (text : String) : Status := ⟨.invalidArgument, .message text⟩

def storageErr (failure : StorageError) : Status where
  code :=
    match failure with
    | .notFound _ | .linkNotFound _ _ => .notFound
    | .corruptedData => .dataLoss
    | .conflict _ => .alreadyExists
    | .invalidInput _ => .invalidArgument
    | .tooLarge _ => .outOfRange
    | _ => .internal
  text := .failure failure

end Status

namespace ProtoNote

def parseUuid (text field : String) : Except Status Uuid :=
  match Keeplin.parseUuid text.toList with
  | some id => .ok id
  | none => .error (.invalidArgument (field ++ " is not a valid UUID"))

def linkSourceStr : LinkSource → String
  | .content => "content"
  | .manual => "manual"

def ofBookmark (bookmark : Bookmark) : ProtoBookmark :=
  ⟨bookmark.number, bookmark.text, bookmark.alias⟩

def toBookmark (bookmark : ProtoBookmark) : Bookmark :=
  ⟨bookmark.number, bookmark.text, bookmark.alias⟩

def ofNoteLink (link : NoteLink) : ProtoNoteLink :=
  ⟨linkSourceStr link.source, link.raw,
    link.targetNoteId.map fun id => String.ofList (uuidText id)⟩

def toNoteLink (link : ProtoNoteLink) : NoteLink :=
  ⟨if link.source = "manual" then .manual else .content, link.raw,
    link.targetNoteId.bind fun text => Keeplin.parseUuid text.toList⟩

def ofNote (note : Note) : ProtoNote where
  id := String.ofList (uuidText note.id)
  title := note.title
  body := note.body
  notebookId :=
    if note.notebookId = Uuid.nil then none else some (String.ofList (uuidText note.notebookId))
  isTodo := note.isTodo
  todoDue := note.todoDue.map fun due => String.ofList (toRfc3339 due)
  todoCompleted := note.todoCompleted.map fun completed => String.ofList (toRfc3339 completed)
  createdAt := String.ofList (toRfc3339 note.createdAt)
  updatedAt := String.ofList (toRfc3339 note.updatedAt)
  deletedAt := note.deletedAt.map fun deleted => String.ofList (toRfc3339 deleted)
  «alias» := note.alias
  bookmarks := note.bookmarks.map ofBookmark
  links := note.links.map ofNoteLink
  isPinned := note.isPinned
  isStarred := note.isStarred
  sortKey := note.sortKey

section Parsing

variable (parseDateTime : String → Option DateTime)

def parseOptionalDt : Option String → Except Status (Option DateTime)
  | none => .ok none
  | some text =>
      match parseDateTime text with
      | some instant => .ok (some instant)
      | none => .error (.invalidArgument (text ++ " is not a valid RFC-3339 timestamp"))

def parseDt (text field : String) : Except Status DateTime :=
  match parseDateTime text with
  | some instant => .ok instant
  | none => .error (.invalidArgument (field ++ " is invalid"))

/-- The note of a message.  The fields are read in their order, and the first that
cannot be read is the one that is told. -/
def toNote (noteProto : ProtoNote) : Except Status Note := do
  let id ← parseUuid noteProto.id "id"
  let notebookId ←
    match noteProto.notebookId.filter (· ≠ "") with
    | none => pure Uuid.nil
    | some text => parseUuid text "notebook_id"
  let todoDue ← parseOptionalDt parseDateTime noteProto.todoDue
  let todoCompleted ← parseOptionalDt parseDateTime noteProto.todoCompleted
  let createdAt ← parseDt parseDateTime noteProto.createdAt "created_at"
  let updatedAt ← parseDt parseDateTime noteProto.updatedAt "updated_at"
  let deletedAt ← parseOptionalDt parseDateTime noteProto.deletedAt
  return {
    id, notebookId, todoDue, todoCompleted, createdAt, updatedAt, deletedAt
    title := noteProto.title
    body := noteProto.body
    isTodo := noteProto.isTodo
    «alias» := noteProto.alias
    bookmarks := noteProto.bookmarks.map toBookmark
    links := noteProto.links.map toNoteLink
    vv := ∅
    lastWriter := ""
    isPinned := noteProto.isPinned
    isStarred := noteProto.isStarred
    sortKey := noteProto.sortKey }

end Parsing

end ProtoNote

/-- A request to update a note.  Over REST the note arrives parsed, beside the id of
its path. -/
inductive UpdateRequest where
  | grpc (note : Option ProtoNote)
  | rest (id : Uuid) (note : Note)

/-- The note that a request sends, under its id. -/
def UpdateRequest.sent (parseDateTime : String → Option DateTime) : UpdateRequest → Option Note
  | .grpc none => none
  | .grpc (some noteProto) => (noteProto.toNote parseDateTime).toOption
  | .rest id note => some { note with id := id }

namespace NoteStore

variable {S : Type} (backend : NoteStore S) (cap : Nat) (clock : CallClock)
  (parseDateTime : String → Option DateTime)

def grpcUpdateNote (request : Option ProtoNote) (store : S) :
    Option (S × Except Status ProtoNote) :=
  match request with
  | none => some (store, .error (.invalidArgument "note is required"))
  | some noteProto =>
      match noteProto.toNote parseDateTime with
      | .error status => some (store, .error status)
      | .ok note =>
          match backend.readNote note.id store with
          | .error failure => some (store, .error (.storageErr failure))
          | .ok stored =>
              if stored.deletedAt.isSome then
                some (store, .error ⟨.notFound, .id note.id⟩)
              else
                match checkBody note.body with
                | .error violation =>
                    some (store, .error (.storageErr (.tooLarge violation)))
                | .ok () =>
                    (backend.reconcileNotebookMove cap clock stored.notebookId note store).map fun
                      | (store, .error failure) => (store, .error (.storageErr failure))
                      | (store, .ok note) =>
                          let done := backend.updateNote { note with updatedAt := clock.now }
                            clock.now store
                          (done.1, (done.2.mapError .storageErr).map .ofNote)

/-- A request that is answered with the note it wrote. -/
def Updates (request : UpdateRequest) (store after : S) : Prop :=
  match request with
  | .grpc note => ∃ response,
      backend.grpcUpdateNote cap clock parseDateTime note store = some (after, .ok response)
  | .rest id note => ∃ response,
      backend.updatePlaced cap clock id note store = some (after, .ok response)

variable {backend cap clock parseDateTime} {store after : S} {request : UpdateRequest}

/-- Both front ends do the same with a note, up to what they tell of a refusal. -/
theorem grpcUpdateNote_eq (backend : NoteStore S) (cap : Nat) (clock : CallClock) (store : S)
    {noteProto : ProtoNote} {note : Note}
    (hnote : noteProto.toNote parseDateTime = .ok note) :
    (backend.grpcUpdateNote cap clock parseDateTime (some noteProto) store).map
        (fun done => (done.1, done.2.toOption)) =
      (backend.updatePlaced cap clock note.id note store).map
        fun done => (done.1, done.2.toOption.map .ofNote) := by
  simp only [grpcUpdateNote, updatePlaced, readLiveNote, hnote]
  cases hstored : backend.readNote note.id store with
  | error failure => rfl
  | ok stored =>
      cases hdeleted : stored.deletedAt.isSome with
      | true => simp only [hdeleted, if_true]; rfl
      | false =>
          simp only [hdeleted, Bool.false_eq_true, if_false]
          cases checkBody note.body with
          | error violation => rfl
          | ok checked =>
              simp only [Option.map_map]
              congr 1
              funext result
              obtain ⟨middle, placed⟩ := result
              cases placed with
              | error failure => rfl
              | ok placed =>
                  simp only [Function.comp_apply]
                  obtain ⟨written, updated⟩ :=
                    backend.updateNote { placed with updatedAt := clock.now } clock.now middle
                  cases updated <;> rfl

theorem Updates.updatePlaced
    (hupdates : backend.Updates cap clock parseDateTime request store after) :
    ∃ note, request.sent parseDateTime = some note ∧ ∃ updated,
      backend.updatePlaced cap clock note.id note store = some (after, .ok updated) := by
  cases request with
  | rest id note =>
      obtain ⟨response, hresponse⟩ := hupdates
      exact ⟨_, rfl, response, hresponse⟩
  | grpc message =>
      obtain ⟨response, hresponse⟩ := hupdates
      cases message with
      | none => cases hresponse
      | some noteProto =>
          cases hnote : noteProto.toNote parseDateTime with
          | error status =>
              rw [grpcUpdateNote, hnote] at hresponse
              cases hresponse
          | ok note =>
              refine ⟨note, by rw [UpdateRequest.sent, hnote]; rfl, ?_⟩
              have hsame := grpcUpdateNote_eq backend cap clock store hnote
              rw [hresponse] at hsame
              obtain ⟨⟨written, updated⟩, hdone, heq⟩ := Option.map_eq_some_iff.mp hsame.symm
              cases updated with
              | error failure => cases heq
              | ok updated =>
                  cases heq
                  exact ⟨updated, hdone⟩

end NoteStore

section Orders

variable {S : Type} {live : S → List Placement} {ready : S → Prop} {backend : NoteStore S}
  {store after : S} {id : Uuid}

/-- A key of the band that the pin of a note tells is one it may be moved to. -/
theorem sortKeyBand_of_banded (note : Note) {key : Nat} (hpositive : 0 < key)
    (hbanded : (⟨note.id, note.notebookId, note.isPinned, key⟩ : Placement).Banded) :
    (sortKeyBand note key).1 = true := by
  simp only [sortKeyBand]
  by_cases hinbox : isInbox note.notebookId = true
  · rw [if_pos hinbox]
    exact decide_eq_true ((banded_inbox hinbox).mp hbanded).2
  rw [if_neg hinbox]
  have hpinned := (banded_normal hinbox).mp hbanded
  by_cases hpin : note.isPinned = true
  · rw [if_pos hpin]
    exact decide_eq_true (hpinned.mp hpin)
  · rw [if_neg hpin]
    have houtside : ¬ (1 ≤ key ∧ key ≤ PIN_MAX) := fun hinside => hpin (hpinned.mpr hinside)
    refine decide_eq_true ?_
    simp only [NORMAL_START, Note.DEFAULT_SORT_KEY, PIN_MAX] at houtside ⊢
    omega

/-- A call that orders the note and is not refused. -/
inductive NoteStore.OrderStep (backend : NoteStore S) (id : Uuid) : S → S → Prop
  | pinNote {store after : S} (now : DateTime) (note : Note)
      (hcall : backend.editNote now id .pinNote store = (after, .ok note)) :
      OrderStep backend id store after
  | unpinNote {store after : S} (now : DateTime) (note : Note)
      (hcall : backend.editNote now id .unpinNote store = (after, .ok note)) :
      OrderStep backend id store after
  | reorderNote {store after : S} (now : DateTime) (note : Note) (newSortKey : Nat)
      (hcall : backend.editNote now id (.reorderNote newSortKey) store = (after, .ok note)) :
      OrderStep backend id store after

theorem NoteStore.OrderStep.edit (hstep : backend.OrderStep id store after) :
    ∃ edit : NoteEdit, edit.orders ∧ ∃ now, (backend.editNote now id edit store).1 = after := by
  cases hstep with
  | pinNote now note hcall => exact ⟨.pinNote, trivial, now, congrArg Prod.fst hcall⟩
  | unpinNote now note hcall => exact ⟨.unpinNote, trivial, now, congrArg Prod.fst hcall⟩
  | reorderNote now note newSortKey hcall =>
      exact ⟨.reorderNote newSortKey, trivial, now, congrArg Prod.fst hcall⟩

variable (live) in
/-- Other notes of the notebook have every key of a pin, and this one is not pinned. -/
structure Crowded (id notebookId : Uuid) (store : S) : Prop where
  unpinned : ∀ item ∈ live store, item.id = id →
    item.notebookId = notebookId ∧ item.isPinned = false
  taken : ∀ key, 1 ≤ key → key ≤ PIN_MAX → ∃ item ∈ live store,
    item.id ≠ id ∧ item.notebookId = notebookId ∧ item.sortKey = key

/-- The notes that have the keys of the pins of a normal notebook are the pinned ones. -/
theorem crowded_of_taken (hids : ((live store).map Placement.id).Nodup)
    (hbands : InBands live store) {item : Placement} (hitem : item ∈ live store)
    (hunpinned : item.isPinned = false) (hnormal : ¬ isInbox item.notebookId = true)
    (htaken : ∀ key, 1 ≤ key → key ≤ PIN_MAX → key ∈ keysIn live item.notebookId store) :
    Crowded live item.id item.notebookId store where
  unpinned other hother hid := by
    obtain rfl : other = item := List.inj_on_of_nodup_map hids hother hitem hid
    exact ⟨rfl, hunpinned⟩
  taken key hpositive hmax := by
    obtain ⟨other, hother, hnotebook, hkey⟩ := mem_keysIn.mp (htaken key hpositive hmax)
    refine ⟨other, hother, fun hid => ?_, hnotebook, hkey⟩
    obtain rfl : other = item := List.inj_on_of_nodup_map hids hother hitem hid
    have hpinned := ((banded_normal hnormal).mp (hbands _ hitem)).mpr
      (hkey ▸ ⟨hpositive, hmax⟩)
    rw [hunpinned] at hpinned
    contradiction

theorem Crowded.stays {notebookId : Uuid} (hcrowded : Crowded live id notebookId store)
    (hstays : Stays live store after) : Crowded live id notebookId after where
  unpinned item hitem := hcrowded.unpinned item ((hstays item).mp hitem)
  taken key hpositive hmax := by
    obtain ⟨item, hitem, hkept⟩ := hcrowded.taken key hpositive hmax
    exact ⟨item, (hstays item).mpr hitem, hkept⟩

/-- No call that orders the note pins it. -/
theorem KeepsPlacements.crowded_editNote (hkeeps : KeepsPlacements live backend ready)
    (hreads : ReadsPlacements live backend ready) {edit : NoteEdit} (hedit : edit.orders)
    (now : DateTime) {notebookId : Uuid} (hready : ready store)
    (hcrowded : Crowded live id notebookId store) :
    ready (backend.editNote now id edit store).1 ∧
      Crowded live id notebookId (backend.editNote now id edit store).1 := by
  cases hstored : backend.readLiveNote id store with
  | error failure =>
      rw [editNote_of_error now hstored]
      exact ⟨hready, hcrowded⟩
  | ok stored =>
      obtain ⟨hread, hlive⟩ := readLiveNote_eq_ok.mp hstored
      obtain ⟨hid, hheld⟩ := hkeeps.read store id stored hready hread
      obtain ⟨hnotebook, hunpinned⟩ := hcrowded.unpinned _ (hheld hlive) hid
      obtain ⟨keys, hperm, hends⟩ := hkeeps.editNote_ends hreads hedit now hready hstored
      obtain ⟨hafter, hstays | ⟨written, hwritten, hplaces⟩⟩ := hends.cases
      · exact ⟨hafter, hcrowded.stays hstays⟩
      obtain ⟨hwrittenId, hwrittenNotebook, -⟩ := NoteEdit.kept_of_outcome hedit hwritten
      have hpinned : written.isPinned = false := by
        rw [Bool.eq_false_iff]
        intro hpinned
        by_cases hpin : edit = .pinNote
        · subst hpin
          have hnone : lowestFreePinnedKey
              (NotebookSortProfile.fromEffectiveKeys keys).pinnedKeys = none := by
            refine lowestFree_eq_none.mpr fun key hpositive hmax => ?_
            obtain ⟨item, hitem, -, hin, hkey⟩ := hcrowded.taken key hpositive hmax
            exact hperm.mem_iff.mpr (mem_keysIn.mpr ⟨item, hitem, hin.trans hnotebook.symm, hkey⟩)
          rw [NoteEdit.outcome_pinNote, hnone] at hwritten
          split at hwritten
          · cases hwritten
          split at hwritten <;> cases hwritten
        · have hstoredPinned := NoteEdit.isPinned_of_outcome hedit hpin hwritten hpinned
          exact absurd (hstoredPinned.symm.trans hunpinned) Bool.true_eq_false_eq_False
      refine ⟨hafter, ⟨fun item hitem hitemId => ?_, fun key hpositive hmax => ?_⟩⟩
      · rcases (hplaces item).mp hitem with ⟨rfl, -⟩ | ⟨hne, hold⟩
        · exact ⟨hwrittenNotebook.trans hnotebook, hpinned⟩
        · exact hcrowded.unpinned item hold hitemId
      · obtain ⟨item, hitem, hother, hkept⟩ := hcrowded.taken key hpositive hmax
        refine ⟨item, (hplaces item).mpr (.inr ⟨?_, hitem⟩), hother, hkept⟩
        rwa [hwrittenId, hid]

theorem KeepsPlacements.crowded_orders (hkeeps : KeepsPlacements live backend ready)
    (hreads : ReadsPlacements live backend ready) {notebookId : Uuid} (hready : ready store)
    (hcrowded : Crowded live id notebookId store)
    (horders : Relation.ReflTransGen (backend.OrderStep id) store after) :
    ready after ∧ Crowded live id notebookId after := by
  induction horders with
  | refl => exact ⟨hready, hcrowded⟩
  | tail _ hstep ih =>
      obtain ⟨edit, hedit, now, rfl⟩ := hstep.edit
      exact hkeeps.crowded_editNote hreads hedit now ih.1 ih.2

theorem placement_sortKey (note : Note) {key : Nat} (hpositive : 0 < key) :
    ({ note with sortKey := key } : Note).placement = { note.placement with sortKey := key } := by
  have hkey : ({ note with sortKey := key } : Note).effectiveSortKey = key :=
    if_neg (Nat.pos_iff_ne_zero.mp hpositive)
  rw [Note.placement, hkey]
  rfl

/-- A live note can be moved to any key of its band. -/
theorem KeepsPlacements.reorder_reaches (hkeeps : KeepsPlacements live backend ready)
    (hreads : ReadsPlacements live backend ready) (hready : ready store) {item : Placement}
    (hitem : item ∈ live store) {key : Nat} (hpositive : 0 < key)
    (hbanded : ({ item with sortKey := key } : Placement).Banded) :
    ∃ after, backend.OrderStep item.id store after ∧ { item with sortKey := key } ∈ live after := by
  obtain ⟨stored, hstored, rfl⟩ := hreads.found store item hready hitem
  have hband := sortKeyBand_of_banded stored hpositive hbanded
  have hplacement := placement_sortKey stored hpositive
  have hedit : NoteEdit.orders (.reorderNote key) := trivial
  obtain ⟨keys, -, hends⟩ := hkeeps.editNote_ends hreads hedit 0 hready hstored
  rw [NoteEdit.outcome_reorderNote, if_pos hband] at hends
  by_cases hsame : stored.sortKey = key
  · rw [if_pos hsame] at hends
    obtain ⟨hresult, -, hstays⟩ := hends
    refine ⟨_, .reorderNote 0 stored key (Prod.ext rfl hresult), (hstays _).mpr ?_⟩
    have hunchanged : ({ stored with sortKey := key } : Note) = stored := by rw [← hsame]
    rw [← hplacement, hunchanged]
    exact hitem
  · rw [if_neg hsame] at hends
    obtain ⟨⟨updated, hresult⟩, -, hplaces⟩ := hends
    refine ⟨_, .reorderNote 0 updated key (Prod.ext rfl hresult), (hplaces _).mpr (.inl ?_)⟩
    exact ⟨hplacement.symm, (readLiveNote_eq_ok.mp hstored).2⟩

/-- A live note outside the Inbox is pinned while there is a free key. -/
theorem KeepsPlacements.pin_reaches (hkeeps : KeepsPlacements live backend ready)
    (hreads : ReadsPlacements live backend ready) (hready : ready store) {item : Placement}
    (hitem : item ∈ live store) (hnormal : ¬ isInbox item.notebookId = true)
    (hunpinned : ¬ item.isPinned = true)
    (hfree : ∃ key, 1 ≤ key ∧ key ≤ PIN_MAX ∧ key ∉ keysIn live item.notebookId store) :
    ∃ after key, backend.OrderStep item.id store after ∧ ready after ∧
      { item with isPinned := true, sortKey := key } ∈ live after := by
  obtain ⟨stored, hstored, rfl⟩ := hreads.found store item hready hitem
  have hedit : NoteEdit.orders .pinNote := trivial
  obtain ⟨keys, hperm, hends⟩ := hkeeps.editNote_ends hreads hedit 0 hready hstored
  have hnormalNote : ¬ isInbox stored.notebookId = true := hnormal
  have hunpinnedNote : ¬ stored.isPinned = true := hunpinned
  rw [NoteEdit.outcome_pinNote, if_neg hnormalNote, if_neg hunpinnedNote] at hends
  cases hlowest : lowestFreePinnedKey (NotebookSortProfile.fromEffectiveKeys keys).pinnedKeys with
  | none =>
      obtain ⟨key, hpositive, hmax, hnot⟩ := hfree
      exact absurd (hperm.mem_iff.mp (lowestFree_eq_none.mp hlowest key hpositive hmax)) hnot
  | some key =>
      rw [hlowest] at hends
      obtain ⟨⟨updated, hresult⟩, hafter, hplaces⟩ := hends
      obtain ⟨hpositive, -⟩ := lowestFree_eq_some.mp hlowest
      refine ⟨_, key, .pinNote 0 updated (Prod.ext rfl hresult), hafter, (hplaces _).mpr (.inl ?_)⟩
      refine ⟨?_, (readLiveNote_eq_ok.mp hstored).2⟩
      exact (placement_sortKey { stored with isPinned := true } hpositive).symm

/-- A live note that is pinned is unpinned. -/
theorem KeepsPlacements.unpin_reaches (hkeeps : KeepsPlacements live backend ready)
    (hreads : ReadsPlacements live backend ready) (hready : ready store) {item : Placement}
    (hitem : item ∈ live store) (hpinned : item.isPinned = true) :
    ∃ after key, backend.OrderStep item.id store after ∧ ready after ∧
      { item with isPinned := false, sortKey := key } ∈ live after := by
  obtain ⟨stored, hstored, rfl⟩ := hreads.found store item hready hitem
  have hedit : NoteEdit.orders .unpinNote := trivial
  obtain ⟨keys, hperm, hends⟩ := hkeeps.editNote_ends hreads hedit 0 hready hstored
  have hpinnedNote : stored.isPinned = true := hpinned
  rw [NoteEdit.outcome_unpinNote, if_pos hpinnedNote] at hends
  obtain ⟨⟨updated, hresult⟩, hafter, hplaces⟩ := hends
  have hheld := (hplaces _).mpr (.inl ⟨rfl, (readLiveNote_eq_ok.mp hstored).2⟩)
  exact ⟨_, _, .unpinNote 0 updated (Prod.ext rfl hresult), hafter, hheld⟩

/-- Where the calls that order a live note can bring it. -/
theorem KeepsPlacements.orders_reach (hkeeps : KeepsPlacements live backend ready)
    (hreads : ReadsPlacements live backend ready) (hready : ready store) {item : Placement}
    (hitem : item ∈ live store) (isPinned : Bool) {key : Nat} (hpositive : 0 < key)
    (hbanded : (⟨item.id, item.notebookId, isPinned, key⟩ : Placement).Banded)
    (hfree : isPinned = true → item.isPinned = false →
      ∃ key, 1 ≤ key ∧ key ≤ PIN_MAX ∧ key ∉ keysIn live item.notebookId store) :
    ∃ after, Relation.ReflTransGen (backend.OrderStep item.id) store after ∧
      ⟨item.id, item.notebookId, isPinned, key⟩ ∈ live after := by
  have hthen : ∀ {middle between}, ready middle →
      ({ item with isPinned := isPinned, sortKey := between } : Placement) ∈ live middle →
      Relation.ReflTransGen (backend.OrderStep item.id) store middle →
      ∃ after, Relation.ReflTransGen (backend.OrderStep item.id) store after ∧
        ⟨item.id, item.notebookId, isPinned, key⟩ ∈ live after := by
    intro middle between hmiddle hbetween horders
    obtain ⟨after, hstep, hafter⟩ :=
      hkeeps.reorder_reaches hreads hmiddle hbetween hpositive hbanded
    exact ⟨after, horders.tail hstep, hafter⟩
  by_cases hsame : item.isPinned = isPinned
  · subst hsame
    exact hthen hready hitem .refl
  cases isPinned with
  | true =>
      have hnormal : ¬ isInbox item.notebookId = true := by
        intro hinbox
        cases ((banded_inbox hinbox).mp hbanded).1
      obtain ⟨middle, between, hstep, hmiddle, hbetween⟩ := hkeeps.pin_reaches hreads hready hitem
        hnormal hsame (hfree rfl (Bool.eq_false_iff.mpr hsame))
      exact hthen hmiddle hbetween (.single hstep)
  | false =>
      obtain ⟨middle, between, hstep, hmiddle, hbetween⟩ :=
        hkeeps.unpin_reaches hreads hready hitem (by simpa using hsame)
      exact hthen hmiddle hbetween (.single hstep)

end Orders

section Updates

variable {S : Type} {live : S → List Placement} {ready : S → Prop} {backend : NoteStore S}
  {store after : S} {note : Note} {cap : Nat} {clock : CallClock}

/-- A note that is sent and that the store takes is written. -/
theorem NoteStore.Updates.of_updatePlaced {parseDateTime : String → Option DateTime}
    {request : UpdateRequest} {updated : Note}
    (hsent : request.sent parseDateTime = some note)
    (hupdate : backend.updatePlaced cap clock note.id note store = some (after, .ok updated)) :
    backend.Updates cap clock parseDateTime request store after := by
  cases request with
  | rest id sent =>
      obtain rfl := Option.some.inj hsent
      exact ⟨updated, hupdate⟩
  | grpc message =>
      cases message with
      | none => cases hsent
      | some noteProto =>
          have hnote : noteProto.toNote parseDateTime = .ok note := by
            simp only [UpdateRequest.sent] at hsent
            cases hparsed : noteProto.toNote parseDateTime with
            | error status =>
                rw [hparsed] at hsent
                cases hsent
            | ok parsed =>
                rw [hparsed] at hsent
                exact congrArg Except.ok (Option.some.inj hsent)
          have hsame := NoteStore.grpcUpdateNote_eq backend cap clock store hnote
          rw [hupdate] at hsame
          obtain ⟨⟨written, answered⟩, hdone, heq⟩ := Option.map_eq_some_iff.mp hsame
          cases answered with
          | error status => cases heq
          | ok answered =>
              cases heq
              exact ⟨_, hdone⟩

variable (live) in
/-- The bands hold, and a note that stays in its notebook was moved as the calls that
order it could have moved it. -/
def KeepsOrder (backend : NoteStore S) (note : Note) (store after : S) : Prop :=
  InBands live after ∧ ∀ stored, backend.readLiveNote note.id store = .ok stored →
    note.notebookId = stored.notebookId → ∀ item ∈ live after, item.id = note.id →
      ∃ final, Relation.ReflTransGen (backend.OrderStep note.id) store final ∧ item ∈ live final

variable (live) in
/-- A note that is sent within its notebook, and not to be deleted, has a pin and a key
that tell the same, and where the pin is new there is a free key for one. -/
def AllowsOrder (backend : NoteStore S) (note : Note) (store : S) : Prop :=
  ∀ stored, backend.readLiveNote note.id store = .ok stored →
    note.notebookId = stored.notebookId → note.deletedAt = none →
      note.placement.Banded ∧ (note.isPinned = true → stored.isPinned = false →
        ∃ key, 1 ≤ key ∧ key ≤ PIN_MAX ∧ key ∉ keysIn live note.notebookId store)

theorem NoteStore.updatePlaced_eq_ok {updated : Note}
    (hupdate : backend.updatePlaced cap clock note.id note store = some (after, .ok updated)) :
    ∃ stored, backend.readLiveNote note.id store = .ok stored ∧ checkBody note.body = .ok () := by
  simp only [NoteStore.updatePlaced] at hupdate
  split at hupdate
  · cases hupdate
  next stored hstored =>
  split at hupdate
  · cases hupdate
  next hbody => exact ⟨stored, hstored, hbody⟩

/-- A place that the ordering calls bring a note to, if it is pinned there and was
not before, was free. -/
theorem KeepsPlacements.free_of_orders (hkeeps : KeepsPlacements live backend ready)
    (hreads : ReadsPlacements live backend ready) (hready : ready store)
    (hbands : InBands live store) {item final : Placement} (hitem : item ∈ live store)
    (hunpinned : item.isPinned = false) (hnormal : ¬ isInbox item.notebookId = true)
    (horders : Relation.ReflTransGen (backend.OrderStep item.id) store after)
    (hfinal : final ∈ live after) (hid : final.id = item.id) (hpinned : final.isPinned = true) :
    ∃ key, 1 ≤ key ∧ key ≤ PIN_MAX ∧ key ∉ keysIn live item.notebookId store := by
  by_contra hnone
  have htaken : ∀ key, 1 ≤ key → key ≤ PIN_MAX → key ∈ keysIn live item.notebookId store := by
    intro key hpositive hmax
    by_contra hfree
    exact hnone ⟨key, hpositive, hmax, hfree⟩
  have hcrowded := crowded_of_taken (hkeeps.ids store hready) hbands hitem hunpinned hnormal htaken
  have hafter := (hkeeps.crowded_orders hreads hready hcrowded horders).2
  obtain ⟨-, hstill⟩ := hafter.unpinned final hfinal hid
  rw [hstill] at hpinned
  contradiction

theorem KeepsPlacements.keepsOrder_iff (hkeeps : KeepsPlacements live backend ready)
    (hreads : ReadsPlacements live backend ready) (hready : ready store)
    (hbands : InBands live store) {updated : Note}
    (hupdate : backend.updatePlaced cap clock note.id note store = some (after, .ok updated)) :
    KeepsOrder live backend note store after ↔ AllowsOrder live backend note store := by
  obtain ⟨stored, hstored, hbody⟩ := NoteStore.updatePlaced_eq_ok hupdate
  have hfound : ∀ found, backend.readLiveNote note.id store = .ok found → found = stored :=
    fun found hfound => Except.ok.inj (hfound.symm.trans hstored)
  have hstep : backend.placementStep cap store (clock, .updateNote note.id note) = some after := by
    simp only [NoteStore.placementStep, hupdate, Option.map_some]
  obtain ⟨-, hbandsIff⟩ := hkeeps.inBands_step_iff hready hbands hstep
  by_cases hnotebook : note.notebookId = stored.notebookId
  · obtain ⟨written, answered, hwrites, -, hplaces⟩ :=
      hkeeps.updatePlaced_same cap clock hready hstored hbody hnotebook
    obtain ⟨rfl, -⟩ := Prod.mk.inj (Option.some.inj (hupdate.symm.trans hwrites))
    obtain ⟨hread, hlive⟩ := readLiveNote_eq_ok.mp hstored
    obtain ⟨hid, hheld⟩ := hkeeps.read store note.id stored hready hread
    have hplacedId : stored.placement.id = note.id := hid
    have hplacedIn : stored.placement.notebookId = note.notebookId := hnotebook.symm
    constructor
    · rintro ⟨hafter, hmoves⟩ found hread hsame hsent
      obtain rfl := hfound found hread
      have hbanded := hbandsIff.mp hafter found hstored hbody hnotebook hsent
      refine ⟨hbanded, fun hpinned hunpinned => ?_⟩
      have hnormal : ¬ isInbox note.notebookId = true := by
        intro hinbox
        rw [((banded_inbox hinbox).mp hbanded).1] at hpinned
        contradiction
      obtain ⟨final, horders, hfinal⟩ :=
        hmoves found hstored hnotebook note.placement ((hplaces _).mpr (.inl ⟨rfl, hsent⟩)) rfl
      rw [← hplacedIn] at hnormal ⊢
      rw [← hplacedId] at horders
      exact hkeeps.free_of_orders hreads hready hbands (hheld hlive) hunpinned hnormal horders
        hfinal hplacedId.symm hpinned
    · intro hallows
      constructor
      · exact hbandsIff.mpr fun found hread _ hsame hsent => (hallows found hread hsame hsent).1
      · intro found hread hsame item hafter hitemId
        obtain ⟨rfl, hsent⟩ := ((hplaces item).mp hafter).resolve_right fun hold => hold.1 hitemId
        obtain ⟨hbanded, hfree⟩ := hallows stored hstored hnotebook hsent
        have hreach := hkeeps.orders_reach hreads hready (hheld hlive) note.isPinned
          note.effectiveSortKey_pos
        rw [hplacedId, hplacedIn] at hreach
        exact hreach hbanded hfree
  · have hmoved : ∀ found, backend.readLiveNote note.id store = .ok found →
        note.notebookId ≠ found.notebookId := by
      intro found hread
      rw [hfound found hread]
      exact hnotebook
    have hallows : AllowsOrder live backend note store :=
      fun found hread hsame => absurd hsame (hmoved found hread)
    refine iff_of_true ⟨hbandsIff.mpr ?_, ?_⟩ hallows
    · exact fun found hread _ hsame => absurd hsame (hmoved found hread)
    · exact fun found hread hsame => absurd hsame (hmoved found hread)

end Updates

/-- In either store and over either front end, a request that is answered keeps the
order exactly when what it sends allows it. -/
theorem updateRequest_keepsOrder_iff (cap : Nat) (clock : CallClock)
    (parseDateTime : String → Option DateTime) (request : UpdateRequest) :
    (∀ (serverHistory : Uuid → Nat → Option (List (EntityVersion Note))) (db after : Db),
      InBands Db.placements db →
      (Db.noteStore serverHistory).Updates cap clock parseDateTime request db after →
      ∃ note, request.sent parseDateTime = some note ∧
        (KeepsOrder Db.placements (Db.noteStore serverHistory) note db after ↔
          AllowsOrder Db.placements (Db.noteStore serverHistory) note db)) ∧
      ∀ (place : Uuid → Nat) (store after : IndexedTree), store.Current →
        InBands IndexedTree.placements store →
        (IndexedTree.noteStore place).Updates cap clock parseDateTime request store after →
        ∃ note, request.sent parseDateTime = some note ∧
          (KeepsOrder IndexedTree.placements (IndexedTree.noteStore place) note store after ↔
            AllowsOrder IndexedTree.placements (IndexedTree.noteStore place) note store) := by
  constructor
  · intro serverHistory db after hbands hupdates
    obtain ⟨note, hsent, updated, hupdate⟩ := hupdates.updatePlaced
    exact ⟨note, hsent, (Db.keepsPlacements serverHistory).keepsOrder_iff
      (Db.readsPlacements serverHistory) trivial hbands hupdate⟩
  · intro place store after hcurrent hbands hupdates
    obtain ⟨note, hsent, updated, hupdate⟩ := hupdates.updatePlaced
    exact ⟨note, hsent, (IndexedTree.keepsPlacements place).keepsOrder_iff
      (IndexedTree.readsPlacements place) hcurrent hbands hupdate⟩

namespace UpdateWitness

open InboxWitness BandWitness

/-- The only instant of the requests here. -/
def parseDateTime (text : String) : Option DateTime :=
  if text = "1970-01-01T00:00:00+00:00" then some 0 else none

/-- The note sent over either front end. -/
def requests (note : Note) : List UpdateRequest :=
  [.grpc (some (.ofNote note)), .rest note.id note]

def retitled : Note := { note 0 with title := "a" }

theorem sent_retitled :
    ∀ request ∈ requests retitled, request.sent parseDateTime = some retitled := by
  decide +kernel

theorem sent_pinned : ∀ request ∈ requests pinned, request.sent parseDateTime = some pinned := by
  decide +kernel

section Answers

variable {S : Type} {live : S → List Placement} {ready : S → Prop} {backend : NoteStore S}
  {store : S} {sent : Note}

theorem answered (hkeeps : KeepsPlacements live backend ready) (hready : ready store)
    (hstored : backend.readLiveNote sent.id store = .ok (note 0))
    (hbody : checkBody sent.body = .ok ()) (hnotebook : sent.notebookId = INBOX_ID)
    (hrequests : ∀ request ∈ requests sent, request.sent parseDateTime = some sent) :
    ∀ request ∈ requests sent, ∃ after,
      backend.Updates 1 clock parseDateTime request store after ∧
        Places live { sent with updatedAt := clock.now } store after := by
  intro request hrequest
  obtain ⟨after, updated, hupdate, -, hplaces⟩ :=
    hkeeps.updatePlaced_same 1 clock hready hstored hbody hnotebook
  exact ⟨after, .of_updatePlaced (hrequests request hrequest) hupdate, hplaces⟩

end Answers

theorem keepsOrder_retitled :
    (∀ request ∈ requests retitled, ∃ after,
      (Db.noteStore noServer).Updates 1 clock parseDateTime request (rows 1) after ∧
        KeepsOrder Db.placements (Db.noteStore noServer) retitled (rows 1) after) ∧
      ∀ request ∈ requests retitled, ∃ after,
        (IndexedTree.noteStore place).Updates 1 clock parseDateTime request (files 1) after ∧
          KeepsOrder IndexedTree.placements (IndexedTree.noteStore place) retitled (files 1)
            after := by
  have hbanded : retitled.placement.Banded := (banded_inbox rfl).mpr ⟨rfl, le_refl 1⟩
  constructor
  · intro request hrequest
    obtain ⟨after, hupdates, -⟩ := answered (Db.keepsPlacements noServer) trivial rows_read rfl rfl
      sent_retitled request hrequest
    obtain ⟨found, hfound, hkeeps⟩ := (updateRequest_keepsOrder_iff 1 clock parseDateTime
      request).1 noServer (rows 1) after rows_inBands hupdates
    rw [sent_retitled request hrequest] at hfound
    obtain rfl := Option.some.inj hfound
    exact ⟨after, hupdates, hkeeps.mpr fun _ _ _ _ => ⟨hbanded, fun hpinned =>
      absurd hpinned Bool.false_ne_true⟩⟩
  · intro request hrequest
    obtain ⟨after, hupdates, -⟩ := answered (IndexedTree.keepsPlacements place) (files_notes 1).1
      files_read rfl rfl sent_retitled request hrequest
    obtain ⟨found, hfound, hkeeps⟩ := (updateRequest_keepsOrder_iff 1 clock parseDateTime
      request).2 place (files 1) after (files_notes 1).1 files_inBands hupdates
    rw [sent_retitled request hrequest] at hfound
    obtain rfl := Option.some.inj hfound
    exact ⟨after, hupdates, hkeeps.mpr fun _ _ _ _ => ⟨hbanded, fun hpinned =>
      absurd hpinned Bool.false_ne_true⟩⟩

/-- The request pins a note of the Inbox. -/
theorem not_inBands_of_pinned {S : Type} {live : S → List Placement} {store after : S}
    (hplaces : Places live { pinned with updatedAt := clock.now } store after) :
    ¬ InBands live after := by
  intro hbands
  have hbanded := hbands _ ((hplaces _).mpr (.inl ⟨rfl, rfl⟩))
  cases ((banded_inbox rfl).mp hbanded).1

theorem request_pins_in_inbox :
    (InBands Db.placements (rows 1) ∧ ∀ request ∈ requests pinned, ∃ after,
      (Db.noteStore noServer).Updates 1 clock parseDateTime request (rows 1) after ∧
        ¬ InBands Db.placements after) ∧
      InBands IndexedTree.placements (files 1) ∧ ∀ request ∈ requests pinned, ∃ after,
        (IndexedTree.noteStore place).Updates 1 clock parseDateTime request (files 1) after ∧
          ¬ InBands IndexedTree.placements after := by
  refine ⟨⟨rows_inBands, fun request hrequest => ?_⟩, files_inBands, fun request hrequest => ?_⟩
  · obtain ⟨after, hupdates, hplaces⟩ := answered (Db.keepsPlacements noServer) trivial rows_read
      rfl rfl sent_pinned request hrequest
    exact ⟨after, hupdates, not_inBands_of_pinned hplaces⟩
  · obtain ⟨after, hupdates, hplaces⟩ := answered (IndexedTree.keepsPlacements place)
      (files_notes 1).1 files_read rfl rfl sent_pinned request hrequest
    exact ⟨after, hupdates, not_inBands_of_pinned hplaces⟩

end UpdateWitness

end Keeplin
