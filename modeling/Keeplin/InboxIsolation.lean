/-
The Inbox and the links of notes.  A note saved in the Inbox has no alias and links
to nothing, and no note saved elsewhere links to one that is in the Inbox.  A note
that comes into the Inbox later keeps the links others have to it.
-/
import Keeplin.LinkingIndex
import Keeplin.LabelledRun

namespace Keeplin

open StorageBackend

namespace StorageBackend

variable {S Clock : Type} (store : StorageBackend S Clock)

/-- A live note of the Inbox. -/
def InInbox (inner : S) (id : Uuid) : Prop :=
  ∃ note, store.readNote id inner = .ok note ∧ note.deletedAt = none ∧
    isInbox note.notebookId = true

structure InboxOutside (inner : S) : Prop where
  noAlias : ∀ id note, store.readNote id inner = .ok note → isInbox note.notebookId = true →
    note.alias = none
  noTarget : ∀ id note, store.readNote id inner = .ok note → isInbox note.notebookId = true →
    ∀ link ∈ note.links, link.targetNoteId = none
  untargeted : ∀ source note, store.readNote source inner = .ok note → note.deletedAt = none →
    ∀ link ∈ note.links, ∀ target, link.targetNoteId = some target → ¬ store.InInbox inner target

/-- Another note, a live one, links to this one. -/
def TargetedByOther (inner : S) (id : Uuid) : Prop :=
  ∃ source note link, source ≠ id ∧ store.readNote source inner = .ok note ∧
    note.deletedAt = none ∧ link ∈ note.links ∧ link.targetNoteId = some id

/-- A deleted note is the note as it was, marked deleted. -/
def KeepsDeleted (valid : S → Prop) : Prop :=
  ∀ {inner clock id after}, valid inner → store.deleteNote clock id inner = .ok after →
    ∀ found, store.readNote id after = .ok found →
      ∃ before, store.readNote id inner = .ok before ∧
        found.notebookId = before.notebookId ∧ found.alias = before.alias ∧
        found.links = before.links

end StorageBackend

namespace LinkingBackend

variable {S Clock : Type} (store : StorageBackend S Clock) (patterns : LinkSyntax)

/-- The call, if the store takes it, leaves the note live in the Inbox. -/
def PutsInInbox (backend : LinkingBackend S) (id : Uuid) : LinkingCall Clock → Prop
  | .createNote clock note =>
      note.id = id ∧ note.deletedAt = none ∧ isInbox note.notebookId = true ∧
        ∃ written, store.createNote clock (isolated (patterns.refresh note)) backend.inner =
          .ok written
  | .updateNote clock note =>
      note.id = id ∧ note.deletedAt = none ∧ isInbox note.notebookId = true ∧
        ∃ written, store.updateNote clock (isolated (patterns.refresh note)) backend.inner =
          .ok written
  | _ => False

/-- No note that others link to comes into the Inbox. -/
def KeepsInboxUntargeted (backend : LinkingBackend S) (call : LinkingCall Clock) : Prop :=
  ∀ id, PutsInInbox store patterns backend id call → ¬ store.TargetedByOther backend.inner id

variable {store} {patterns} {valid : S → Prop} {backend after : LinkingBackend S} {note : Note}

/-- A target the index does not have as aliased was read, and one it has is not in
the Inbox. -/
theorem linked_targets {idx : AliasIndex}
    (hholds : idx.Holds (store.noteIndexed backend.inner) (store.notebookIndexed backend.inner))
    {targets : List (Option Uuid)} {unverified : List Uuid}
    (hunverified : unverified =
      (targets.filterMap id).filter fun id => !idx.aliasedNotes.contains id)
    {link : NoteLink}
    (hlink : link ∈ (linked note targets (inboxTargets store backend.inner unverified)).links)
    {target : Uuid} (htarget : link.targetNoteId = some target) :
    ¬ store.InInbox backend.inner target := by
  simp only [linked, ← List.map_uncurry_zip_eq_zipWith, List.mem_map, Prod.exists,
    Function.uncurry_apply_pair] at hlink
  obtain ⟨old, found, hzip, rfl⟩ := hlink
  obtain ⟨hfound, hnotInbox⟩ := Option.filter_eq_some_iff.mp htarget
  rw [decide_eq_true_eq] at hnotInbox
  rintro ⟨stored, hread, hlive, hinbox⟩
  by_cases hcontains : idx.aliasedNotes.contains target = true
  · -- What is indexed is not in the Inbox.
    have hnone : idx.aliasedNotes[target]? = none := by
      rw [hholds.aliasedNotes, StorageBackend.noteIndexed, look_of_read hread, Note.indexed]
      simp [hinbox]
    rw [Std.ExtTreeMap.contains_eq_isSome_getElem?, hnone] at hcontains
    contradiction
  · refine hnotInbox (List.mem_filter.mpr ⟨?_, by simp [hread, hlive, hinbox]⟩)
    rw [hunverified]
    refine List.mem_filter.mpr ⟨?_, by rw [Bool.eq_false_of_not_eq_true hcontains]; rfl⟩
    exact List.mem_filterMap.mpr ⟨found, (List.of_mem_zip hzip).2, hfound⟩

/-- A note as the store gets it: in the Inbox without alias and targets, elsewhere
without a target in the Inbox. -/
structure Prepared (store : StorageBackend S Clock) (inner : S) (note prepared : Note) : Prop where
  id : prepared.id = note.id
  notebookId : prepared.notebookId = note.notebookId
  deletedAt : prepared.deletedAt = note.deletedAt
  noAlias : isInbox note.notebookId = true → prepared.alias = none
  noTarget : isInbox note.notebookId = true → ∀ link ∈ prepared.links, link.targetNoteId = none
  untargeted : ∀ link ∈ prepared.links, ∀ target, link.targetNoteId = some target →
    ¬ store.InInbox inner target

theorem prepared_isolated (inner : S) :
    Prepared store inner note (isolated (patterns.refresh note)) := by
  have hnone : ∀ link ∈ (isolated (patterns.refresh note)).links, link.targetNoteId = none := by
    intro link hlink
    obtain ⟨old, -, rfl⟩ := List.mem_map.mp hlink
    rfl
  refine ⟨rfl, rfl, rfl, fun _ => rfl, fun _ => hnone, ?_⟩
  intro link hlink target htarget
  rw [hnone link hlink] at htarget
  contradiction

theorem prepare_of_inbox (hinbox : isInbox note.notebookId = true) :
    prepare store patterns note backend =
      (backend, .ok (isolated (patterns.refresh note))) := by
  unfold prepare
  exact if_pos hinbox

theorem prepared_of_ok (hlawful : store.Lawful valid) (hindexed : Indexed store valid backend)
    {prepared : Note} (hprepare : prepare store patterns note backend = (after, .ok prepared)) :
    Prepared store backend.inner note prepared := by
  by_cases hinbox : isInbox note.notebookId = true
  · rw [prepare_of_inbox hinbox] at hprepare
    obtain rfl := Except.ok.inj (Prod.mk.inj hprepare).2
    exact prepared_isolated backend.inner
  · have hplace : ¬ isInbox (patterns.refresh note).notebookId = true := hinbox
    simp only [prepare] at hprepare
    rw [if_neg hplace] at hprepare
    split at hprepare
    · next hplain =>
        obtain rfl := Except.ok.inj (Prod.mk.inj hprepare).2
        refine ⟨rfl, rfl, rfl, fun habs => absurd habs hinbox, fun habs => absurd habs hinbox, ?_⟩
        intro link hlink
        rw [hplain.2] at hlink
        contradiction
    · split at hprepare
      · cases (Prod.mk.inj hprepare).2
      · next looked taken targets unverified hlook =>
          split at hprepare
          · cases (Prod.mk.inj hprepare).2
          · obtain rfl := Except.ok.inj (Prod.mk.inj hprepare).2
            refine ⟨rfl, rfl, rfl, fun habs => absurd habs hinbox,
              fun habs => absurd habs hinbox, ?_⟩
            intro link hlink target htarget
            obtain ⟨idx, hidx, hread⟩ := withIndex_read hlook
            have hholds := (hindexed.withIndex hlawful hlook).holds idx hidx
            rw [inner_withIndex hlook] at hholds hlink
            simp only [lookUp, Prod.mk.injEq] at hread
            obtain ⟨-, rfl, hunverified⟩ := hread
            exact linked_targets hholds hunverified hlink htarget

/-- Saving a note keeps the Inbox outside exactly if it puts no note there that
others link to. -/
theorem inboxOutside_wrote_iff {inner saved : S} {prepared stored : Note}
    (hprepared : Prepared store inner note prepared)
    (hwrote : store.WroteNote prepared inner saved stored) (hout : store.InboxOutside inner) :
    store.InboxOutside saved ↔
      (note.deletedAt = none → isInbox note.notebookId = true →
        ¬ store.TargetedByOther inner note.id) := by
  obtain ⟨found, hfound, hsame⟩ := hwrote.read
  rw [hprepared.id] at hfound
  have hothers : ∀ other, other ≠ note.id →
      store.readNote other saved = store.readNote other inner :=
    fun other hother => hwrote.notes other (hprepared.id ▸ hother)
  constructor
  · rintro hafter hlive hinbox ⟨source, linking, link, hne, hread, hsourceLive, hlink, htarget⟩
    refine hafter.untargeted source linking ((hothers source hne).trans hread) hsourceLive link
      hlink note.id htarget ⟨found, hfound, ?_, ?_⟩
    · rw [hsame.deletedAt, hprepared.deletedAt, hlive]
    · rw [hsame.notebookId, hprepared.notebookId, hinbox]
  · intro hkeeps
    refine ⟨fun id read hread hinbox => ?_, fun id read hread hinbox => ?_, ?_⟩
    · by_cases hid : id = note.id
      · subst hid
        obtain rfl := Except.ok.inj (hfound.symm.trans hread)
        rw [hsame.notebookId, hprepared.notebookId] at hinbox
        rw [hsame.aliases, hprepared.noAlias hinbox]
      · exact hout.noAlias id read ((hothers id hid).symm.trans hread) hinbox
    · by_cases hid : id = note.id
      · subst hid
        obtain rfl := Except.ok.inj (hfound.symm.trans hread)
        rw [hsame.notebookId, hprepared.notebookId] at hinbox
        rw [hsame.links]
        exact hprepared.noTarget hinbox
      · exact hout.noTarget id read ((hothers id hid).symm.trans hread) hinbox
    · rintro source linking hread hsourceLive link hlink target htarget ⟨into, hinto, hlive, hinbox⟩
      by_cases hsource : source = note.id
      · subst hsource
        obtain rfl := Except.ok.inj (hfound.symm.trans hread)
        rw [hsame.links] at hlink
        by_cases hself : target = note.id
        · -- A note saved outside the Inbox may link to itself.
          subst hself
          obtain rfl := Except.ok.inj (hfound.symm.trans hinto)
          rw [hsame.notebookId, hprepared.notebookId] at hinbox
          rw [hprepared.noTarget hinbox link hlink] at htarget
          contradiction
        · exact hprepared.untargeted link hlink target htarget
            ⟨into, (hothers target hself).symm.trans hinto, hlive, hinbox⟩
      · rw [hothers source hsource] at hread
        by_cases hself : target = note.id
        · subst hself
          obtain rfl := Except.ok.inj (hfound.symm.trans hinto)
          rw [hsame.deletedAt, hprepared.deletedAt] at hlive
          rw [hsame.notebookId, hprepared.notebookId] at hinbox
          exact hkeeps hlive hinbox
            ⟨source, linking, link, hsource, hread, hsourceLive, hlink, htarget⟩
        · exact hout.untargeted source linking hread hsourceLive link hlink target htarget
            ⟨into, (hothers target hself).symm.trans hinto, hlive, hinbox⟩

theorem inboxOutside_writeNote_iff (hlawful : store.Lawful valid)
    (hindexed : Indexed store valid backend) (hout : store.InboxOutside backend.inner)
    {write : Note → S → Except StorageError (S × Note)}
    (hwrite : ∀ {inner note after stored}, valid inner → write note inner = .ok (after, stored) →
      valid after ∧ store.WroteNote note inner after stored) :
    store.InboxOutside (writeNote store patterns write note backend).1.inner ↔
      (note.deletedAt = none → isInbox note.notebookId = true →
        (∃ written, write (isolated (patterns.refresh note)) backend.inner = .ok written) →
          ¬ store.TargetedByOther backend.inner note.id) := by
  unfold writeNote
  split
  · next failure hprepare =>
      rw [inner_prepare hprepare]
      refine iff_of_true hout fun _ hinbox => ?_
      rw [prepare_of_inbox hinbox] at hprepare
      cases (Prod.mk.inj hprepare).2
  · next prepared hprepare =>
      have hinner := inner_prepare hprepare
      have hready := prepared_of_ok hlawful hindexed hprepare
      have hisolated : isInbox note.notebookId = true →
          prepared = isolated (patterns.refresh note) := by
        intro hinbox
        rw [prepare_of_inbox hinbox] at hprepare
        exact (Except.ok.inj (Prod.mk.inj hprepare).2).symm
      rw [hinner]
      split
      · next hfailed =>
          refine iff_of_true (hinner ▸ hout) fun _ hinbox => ?_
          rintro ⟨written, hwritten⟩
          rw [hisolated hinbox, hwritten] at hfailed
          contradiction
      · next saved stored hsaved =>
          obtain ⟨-, hwrote⟩ := hwrite hindexed.valid hsaved
          rw [inboxOutside_wrote_iff hready hwrote hout]
          constructor
          · exact fun hkeeps hlive hinbox _ => hkeeps hlive hinbox
          · exact fun hkeeps hlive hinbox =>
              hkeeps hlive hinbox ⟨_, hisolated hinbox ▸ hsaved⟩

theorem InboxOutside.deleted (hkept : store.KeepsDeleted valid) (hlawful : store.Lawful valid)
    {inner saved : S} (hvalid : valid inner) {clock : Clock} {id : Uuid}
    (hdelete : store.deleteNote clock id inner = .ok saved) (hout : store.InboxOutside inner) :
    store.InboxOutside saved := by
  obtain ⟨-, hdeleted⟩ := hlawful.deleteNote hvalid hdelete
  have hbefore : ∀ other note, store.readNote other saved = .ok note →
      ∃ before, store.readNote other inner = .ok before ∧
        note.notebookId = before.notebookId ∧ note.alias = before.alias ∧
        note.links = before.links ∧ (note.deletedAt = none → other ≠ id ∧ note = before) := by
    intro other note hread
    by_cases hother : other = id
    · subst hother
      obtain ⟨before, hbefore, hnotebook, halias, hlinks⟩ := hkept hvalid hdelete note hread
      refine ⟨before, hbefore, hnotebook, halias, hlinks, fun hlive => ?_⟩
      have hsome := hdeleted.read note hread
      rw [hlive] at hsome
      contradiction
    · exact ⟨note, (hdeleted.notes other hother).symm.trans hread, rfl, rfl, rfl,
        fun _ => ⟨hother, rfl⟩⟩
  refine ⟨fun other note hread hinbox => ?_, fun other note hread hinbox => ?_, ?_⟩
  · obtain ⟨before, hbefore, hnotebook, halias, -, -⟩ := hbefore other note hread
    exact halias.trans (hout.noAlias other before hbefore (hnotebook ▸ hinbox))
  · obtain ⟨before, hbefore, hnotebook, -, hlinks, -⟩ := hbefore other note hread
    rw [hlinks]
    exact hout.noTarget other before hbefore (hnotebook ▸ hinbox)
  · rintro source note hread hlive link hlink target htarget ⟨into, hinto, hintoLive, hinbox⟩
    obtain ⟨before, hbeforeRead, -, -, -, hsame⟩ := hbefore source note hread
    obtain ⟨-, rfl⟩ := hsame hlive
    obtain ⟨beforeInto, hbeforeInto, -, -, -, hsameInto⟩ := hbefore target into hinto
    obtain ⟨-, rfl⟩ := hsameInto hintoLive
    exact hout.untargeted source note hbeforeRead hlive link hlink target htarget
      ⟨into, hbeforeInto, hintoLive, hinbox⟩

theorem InboxOutside.of_unchanged {inner saved : S} (hsame : Unchanged store.readNote inner saved)
    (hout : store.InboxOutside inner) : store.InboxOutside saved where
  noAlias := fun id note hread => hout.noAlias id note ((hsame id).symm.trans hread)
  noTarget := fun id note hread => hout.noTarget id note ((hsame id).symm.trans hread)
  untargeted := by
    rintro source note hread hlive link hlink target htarget ⟨into, hinto, hinbox⟩
    exact hout.untargeted source note ((hsame source).symm.trans hread) hlive link hlink target
      htarget ⟨into, (hsame target).symm.trans hinto, hinbox⟩

theorem inboxOutside_writeNotebook
    (hindexed : Indexed store valid backend) (hout : store.InboxOutside backend.inner)
    {write : Notebook → S → Except StorageError (S × Notebook)}
    (hwrite : ∀ {inner notebook after stored}, valid inner →
      write notebook inner = .ok (after, stored) →
        valid after ∧ store.WroteNotebook notebook inner after stored) (notebook : Notebook) :
    store.InboxOutside (writeNotebook store write notebook backend).1.inner := by
  have hensured : ∀ {looked result},
      ensureNotebookAliasFree store notebook backend = (looked, result) →
        looked.inner = backend.inner := by
    intro looked result hensure
    simp only [ensureNotebookAliasFree] at hensure
    split at hensure
    · exact congrArg LinkingBackend.inner (Prod.mk.inj hensure).1.symm
    · split at hensure
      all_goals
        next hlook =>
          obtain ⟨rfl, -⟩ := Prod.mk.inj hensure
          exact inner_withIndex hlook
  unfold writeNotebook
  split
  · next hensure => exact hensured hensure ▸ hout
  · next hensure =>
      rw [hensured hensure]
      split
      · exact hensured hensure ▸ hout
      · next hsaved =>
          exact InboxOutside.of_unchanged (hwrite hindexed.valid hsaved).2.notes hout

end LinkingBackend

/-- The calls of this device, a change of another not among them. -/
def LinkingCall.isLocal {Clock : Type} : LinkingCall Clock → Bool
  | .applyChange _ _ => false
  | _ => true

namespace LinkingBackend

variable {S Clock : Type} {store : StorageBackend S Clock} {patterns : LinkSyntax}
  {valid : S → Prop} {backend : LinkingBackend S}

theorem inboxOutside_step_iff (hlawful : store.Lawful valid) (hkept : store.KeepsDeleted valid)
    (hindexed : Indexed store valid backend) (hout : store.InboxOutside backend.inner)
    {call : LinkingCall Clock} (hlocal : call.isLocal = true) :
    store.InboxOutside (step store patterns backend call).inner ↔
      KeepsInboxUntargeted store patterns backend call := by
  cases call with
  | createNote clock note =>
      rw [step, createNote, inboxOutside_writeNote_iff hlawful hindexed hout hlawful.createNote]
      constructor
      · rintro hkeeps _ ⟨rfl, hlive, hinbox, hwritten⟩
        exact hkeeps hlive hinbox hwritten
      · exact fun hkeeps hlive hinbox hwritten =>
          hkeeps note.id ⟨rfl, hlive, hinbox, hwritten⟩
  | updateNote clock note =>
      rw [step, updateNote, inboxOutside_writeNote_iff hlawful hindexed hout hlawful.updateNote]
      constructor
      · rintro hkeeps _ ⟨rfl, hlive, hinbox, hwritten⟩
        exact hkeeps hlive hinbox hwritten
      · exact fun hkeeps hlive hinbox hwritten =>
          hkeeps note.id ⟨rfl, hlive, hinbox, hwritten⟩
  | deleteNote clock id =>
      refine iff_of_true ?_ fun _ hputs => hputs.elim
      simp only [step, deleteNote]
      split
      · exact hout
      · next hdelete => exact InboxOutside.deleted hkept hlawful hindexed.valid hdelete hout
  | createNotebook clock notebook =>
      exact iff_of_true (inboxOutside_writeNotebook hindexed hout hlawful.createNotebook
        notebook) fun _ hputs => hputs.elim
  | updateNotebook clock notebook =>
      exact iff_of_true (inboxOutside_writeNotebook hindexed hout hlawful.updateNotebook
        notebook) fun _ hputs => hputs.elim
  | deleteNotebook clock id =>
      refine iff_of_true ?_ fun _ hputs => hputs.elim
      simp only [step, deleteNotebook]
      split
      · exact hout
      · next hdelete =>
          exact InboxOutside.of_unchanged (hlawful.deleteNotebook hindexed.valid hdelete).2.notes
            hout
  | applyChange clock change => cases hlocal
  | buildIndex =>
      refine iff_of_true ?_ fun _ hputs => hputs.elim
      have hinner : (step store patterns backend .buildIndex).inner = backend.inner :=
        inner_withIndex rfl
      exact hinner ▸ hout
  | invalidate => exact iff_of_true hout fun _ hputs => hputs.elim

/-- In a run of local calls the Inbox is outside the links in every state exactly
if no call puts a note there that others link to. -/
theorem run_inboxOutside_iff (patterns : LinkSyntax) (hlawful : store.Lawful valid)
    (hkept : store.KeepsDeleted valid) {inner : S} (hvalid : valid inner)
    (hout : store.InboxOutside inner) {calls : List (LinkingCall Clock)}
    (hlocal : ∀ call ∈ calls, call.isLocal = true) :
    (∀ front, front <+: calls →
      store.InboxOutside (run store patterns ⟨inner, none⟩ front).inner) ↔
      MeetsAll (fun backend call => some (step store patterns backend call))
        (KeepsInboxUntargeted store patterns) ⟨inner, none⟩ calls := by
  have hrun : ∀ (front : List (LinkingCall Clock)) (start : LinkingBackend S),
      runAll (fun backend call => some (step store patterns backend call)) start front =
        some (run store patterns start front) := by
    intro front
    induction front with
    | nil => exact fun start => rfl
    | cons call rest ih => exact fun start => ih (step store patterns start call)
  have hstart : Indexed store valid ⟨inner, none⟩ := ⟨hvalid, fun idx hidx => by cases hidx⟩
  have hiff : (∀ front, front <+: calls → ∀ reached,
      runAll (fun backend call => some (step store patterns backend call)) ⟨inner, none⟩ front =
        some reached → Indexed store valid reached ∧ store.InboxOutside reached.inner) ↔
      MeetsAll (fun backend call => some (step store patterns backend call))
        (KeepsInboxUntargeted store patterns) ⟨inner, none⟩ calls := by
    refine forall_reached_iff_meetsAll _ (fun backend call => nofun) ?_ ⟨hstart, hout⟩
    rintro backend call hcall next ⟨hindexed, hkeeps⟩ hnext
    obtain rfl := Option.some.inj hnext
    rw [inboxOutside_step_iff hlawful hkept hindexed hkeeps (hlocal call hcall)]
    exact and_iff_right (hindexed.step hlawful call)
  rw [← hiff]
  constructor
  · intro hreached front hfront reached hfound
    obtain rfl := Option.some.inj ((hrun front ⟨inner, none⟩).symm.trans hfound)
    exact ⟨hstart.run hlawful front, hreached front hfront⟩
  · exact fun hreached front hfront => (hreached front hfront _ (hrun front ⟨inner, none⟩)).2

end LinkingBackend

theorem Db.keepsDeleted_storage : Db.storage.KeepsDeleted fun _ : Db => True :=
  fun _ hdelete _ hfound => Db.deleteNote_keeps hdelete hfound

namespace InboxIsolationWitness

open LinkingBackend LinkingIndexWitness

/-- The patterns for empty bodies and this one identifier. -/
def patterns : LinkSyntax :=
  ⟨fun _ => [], fun _ => [], fun text =>
    if text = "00000000-0000-0000-0000-000000000001" then some 1 else none⟩

def linking : Note :=
  { note 2 none with links := [⟨.manual, "#00000000-0000-0000-0000-000000000001", none⟩] }

theorem empty_inboxOutside : Db.storage.InboxOutside db := by
  have hnone : ∀ id note, Db.storage.readNote id db ≠ .ok note := by
    intro id note hread
    change db.readNote id = .ok note at hread
    obtain ⟨row, hrow, -⟩ := Db.readNote_ok_iff.mp hread
    simp [db] at hrow
  exact ⟨fun id note hread => absurd hread (hnone id note),
    fun id note hread => absurd hread (hnone id note),
    fun id note hread => absurd hread (hnone id note)⟩

/-- The second note links to the first, which goes to the Inbox later. -/
def movedToInbox : List (LinkingCall DbClock) :=
  [.createNote ⟨1, 1⟩ (note 1 none), .createNote ⟨2, 2⟩ linking,
    .updateNote ⟨3, 3⟩ { note 1 none with notebookId := INBOX_ID }]

theorem moved_note_still_targeted :
    (∀ call ∈ movedToInbox, call.isLocal = true) ∧
      ¬ Db.storage.InboxOutside (run Db.storage patterns ⟨db, none⟩ movedToInbox).inner := by
  refine ⟨by decide, fun hout => ?_⟩
  refine hout.untargeted 2 _ rfl rfl ⟨.manual, "#00000000-0000-0000-0000-000000000001", some 1⟩
    ?_ 1 rfl ⟨_, rfl, rfl, rfl⟩
  exact List.mem_singleton_self _

/-- The first note moved before the second links to it. -/
def movedBefore : List (LinkingCall DbClock) :=
  [.createNote ⟨1, 1⟩ (note 1 none),
    .updateNote ⟨3, 3⟩ { note 1 none with notebookId := INBOX_ID }, .createNote ⟨2, 2⟩ linking]

theorem run_inboxOutside_before :
    Db.storage.InboxOutside (run Db.storage patterns ⟨db, none⟩ movedBefore).inner := by
  have hlocal : ∀ call ∈ movedBefore, call.isLocal = true := by decide
  refine (run_inboxOutside_iff patterns Db.lawful_storage Db.keepsDeleted_storage trivial
    empty_inboxOutside hlocal).mpr ?_ movedBefore (List.prefix_refl _)
  refine ⟨?_, fun next hnext => ⟨?_, fun next' hnext' => ⟨?_, fun _ _ => trivial⟩⟩⟩
  · rintro id ⟨-, -, hinbox, -⟩
    cases hinbox
  · obtain rfl := Option.some.inj hnext
    rintro id ⟨rfl, -⟩ ⟨source, stored, link, hsource, hread, -⟩
    obtain ⟨row, hrow, -⟩ := Db.readNote_ok_iff.mp hread
    change ((∅ : Table NoteRow).insert 1 _)[source]? = some row at hrow
    simp only [Std.ExtTreeMap.getElem?_insert, Std.ExtTreeMap.getElem?_empty,
      Std.LawfulEqCmp.compare_eq_iff_eq, Option.ite_none_right_eq_some] at hrow
    exact hsource hrow.1.symm
  · rintro id ⟨-, -, hinbox, -⟩
    cases hinbox

end InboxIsolationWitness

end Keeplin
