import NeoDCT.Boot
import NeoDCT.Calls
import NeoDCT.Lib.Within

/-!
# The life of a phone

The phone is switched on, runs its main loop, and is switched off at any moment; then it is switched on
again.  With apps that write by statements in the journal only, the databases are what these make of them,
and what is listed is what is in them (`Kept`); a boot adds the default contact to an empty phonebook, and
nothing else.  So over the whole life of a phone (`life`)

    a row that was listed and then erased is never listed again                    (never_again)
    what is in the tables, and what is there no more, the journal accounts for     (life_accounted)
-/

namespace NeoDCT

open PyText Interactive

/-! ## What an entry does -/

/-- What an entry does to the databases. -/
def Event.replay (d : Db) : Event → Db
  | .sql stmt => stmt.run d
  | _ => d

/-- An entry and the databases before and after it: what is listed is in them. -/
structure Record (d : Db) (_ : List Event) (e : Event) (d' : Db) : Prop where
  db : d' = e.replay d
  contacts : ∀ q rows, e = .fetchedContacts q rows → rows = getAllContacts d.contacts q
  inbox : ∀ rows, e = .fetchedInbox rows → rows = Messages.inboxRows d.inbox
  outbox : ∀ rows, e = .fetchedOutbox rows → rows = Messages.outboxRows d.outbox

/-- From one world to a later one the journal says what became of the databases. -/
def Kept (w w' : World) : Prop := History Record w.log w.db w'.log w'.db

instance : Std.Refl Kept := ⟨fun _ => .start⟩

instance : IsTrans World Kept := ⟨fun _ _ _ h h' => h.trans h'⟩

/-- Neither a statement nor a listing. -/
def Event.plain : Event → Bool
  | .sql _ | .fetchedContacts _ _ | .fetchedInbox _ | .fetchedOutbox _ => false
  | _ => true

theorem Record.plain (d : Db) (l : List Event) {e : Event} (h : e.plain = true) : Record d l e d where
  db := by cases e <;> first | rfl | cases h
  contacts := by
    rintro q rows rfl
    cases h
  inbox := by
    rintro rows rfl
    cases h
  outbox := by
    rintro rows rfl
    cases h

theorem Quiet.kept {w w' : World} (h : Quiet w w') : Kept w w' := by
  obtain ⟨io, -, rfl⟩ := h
  exact .start

/-! ## The primitives -/

abbrev Keeps {α : Type} (p : UI α) : Prop := Within Kept p

theorem keeps_drawn {α : Type} {p : UI α} (h : ∀ w, wp p (fun _ w' => Drawn w w') (fun _ w' => Drawn w w') w) :
    Keeps p :=
  .of_wp h (fun _ _ _ h => h.quiet.kept) fun _ _ _ h => h.quiet.kept

theorem keeps_reads {α : Type} {p : UI α} (h : ∀ w, wp p (fun _ w' => Reads w w') (fun _ w' => Quiet w w') w) :
    Keeps p :=
  .of_wp h (fun _ _ _ h => h.quiet.kept) fun _ _ _ h => h.kept

theorem keeps_paint (ops : List DrawOp) : Keeps (paint ops) := keeps_drawn fun w => paint_spec ops w

theorem keeps_present : Keeps present := keeps_drawn fun w => present_spec w

theorem keeps_now : Keeps now := keeps_drawn fun w => wp_mono (now_spec w)
  (by rintro _ _ ⟨-, rfl⟩; exact Drawn.refl _) fun _ _ h => h

theorem keeps_attempt {α : Type} (x : Except PyError α) : Keeps (attempt x) := by
  cases x with
  | ok a => exact .pure a
  | error e => exact .throw _

theorem keeps_readKey : Keeps readKey :=
  .of_wp readKey_spec (fun _ _ _ h => h.quiet.kept) fun _ _ _ h => h.2.kept

theorem keeps_waitForKey : Keeps waitForKey :=
  .of_wp waitForKey_spec (fun _ _ _ h => h.1.quiet.kept) fun _ _ _ h => h.2.2.kept

theorem keeps_record {e : Event} (h : e.plain = true) : Keeps (record e) := fun w =>
  wp_mono (record_spec e w) (by rintro _ _ rfl; exact History.start.snoc (.plain _ _ h)) fun _ _ h => h

/-- A statement is recorded as it is run. -/
theorem keeps_execute (stmt : Stmt) : Keeps (execute stmt) := fun w =>
  wp_mono (execute_spec stmt w) (by
    rintro _ _ rfl
    exact History.start.snoc ⟨rfl, nofun, nofun, nofun⟩) fun _ _ h => h

theorem keeps_softKey (ui : Ui) (self : SoftKeyBar) (text : Option Text) (presentNow : Bool) :
    Keeps (self.update ui text presentNow) :=
  keeps_drawn fun w => SoftKeyBar.update_spec ui self text presentNow w

/-! ## The listings -/

theorem keeps_fetchContacts (q : Option Text) : Keeps (fetchContacts q) := fun w =>
  wp_mono (fetchContacts_spec q w) (by
    rintro _ _ ⟨rfl, rfl⟩
    refine History.start.snoc ⟨rfl, ?_, nofun, nofun⟩
    rintro q' rows h
    cases h
    rfl) fun _ _ h => h

theorem keeps_fetchInbox : Keeps Messages.fetchInboxMessages := fun w => by
  refine History.start.snoc ⟨rfl, nofun, ?_, nofun⟩
  rintro rows h
  cases h
  rfl

theorem keeps_fetchOutbox : Keeps Messages.fetchOutboxMessages := fun w => by
  refine History.start.snoc ⟨rfl, nofun, nofun, ?_⟩
  rintro rows h
  cases h
  rfl

/-! ## The widgets -/

theorem keeps_dialog (ui : Ui) (self : MessageDialog) : Keeps (self.showModal ui) :=
  keeps_reads (MessageDialog.showModal_spec ui self)

/-- A widget's entry, once it is closed. -/
theorem Quiet.kept_entry {w w₁ : World} (h : Quiet w w₁) {e : Event} (he : e.plain = true) :
    Kept w (w₁.journal [e]) :=
  h.kept.snoc (.plain _ _ he)

theorem keeps_verticalList (ui : Ui) (self : VerticalList) : Keeps (self.showModal ui) :=
  .of_wp (VerticalList.showModal_spec ui self) (by
    rintro w ⟨r, -⟩ _ ⟨-, -, w₁, hr, rfl⟩
    exact hr.quiet.kept_entry (by cases r <;> rfl)) fun _ _ _ h => h.2.1.kept

theorem keeps_textInput (ui : Ui) (self : TextInput) : Keeps (self.showModal ui) :=
  .of_wp (TextInput.showModal_spec ui self) (by
    rintro w r _ ⟨-, w₁, hr, rfl⟩
    exact hr.quiet.kept_entry (by cases r <;> rfl)) fun _ _ _ h => h.2.1.kept

theorem keeps_textInputLong (ui : Ui) (self : TextInputLong) (b : Bool) : Keeps (self.draw ui b) :=
  .of_wp (TextInputLong.draw_spec ui self b) (by
    rintro w _ _ ⟨w₁, hd, rfl⟩
    exact hd.quiet.kept_entry rfl) fun _ _ _ h => h.2.quiet.kept

theorem keeps_appSelector (ui : Ui) (self : AppSelector) : Keeps (self.showModal ui) :=
  keeps_reads (AppSelector.showModal_spec ui self)

theorem keeps_pagedList (ui : Ui) (self : PagedList) : Keeps (self.showModal ui) :=
  keeps_reads (PagedList.showModal_spec ui self)

/-! ## The phone book -/

theorem keeps_showNotice (ops : List DrawOp) : Keeps (showNotice ops) :=
  keeps_drawn fun w => showNotice_spec ops w

theorem keeps_contactSelector (ui : Ui) (title btnText : Text) (q : Option Text) (root : Text) :
    Keeps (showContactSelector ui title btnText q root) := by
  refine .bind (keeps_fetchContacts q) fun contacts => ?_
  split
  · exact .bind (keeps_showNotice _) fun _ => .pure _
  refine .bind (keeps_softKey ui _ _ _) fun _ => .bind (keeps_verticalList ui _) fun r => ?_
  match r with
  | (none, _) => exact .pure _
  | (some i, _) =>
    simp only []
    cases contacts[i]? with
    | none => exact .throw _
    | some contact => exact .pure _

namespace PhoneBook

theorem keeps_addEntryAction (ui : Ui) : Keeps (addEntryAction ui) := by
  refine .bind (keeps_textInput ui _) fun r => ?_
  cases r with
  | none => exact .pure _
  | some name =>
    simp only []
    split
    · exact .pure _
    refine .bind (keeps_textInput ui _) fun r => ?_
    cases r with
    | none => exact .pure _
    | some number =>
      simp only []
      split
      · exact .pure _
      · exact .bind (keeps_execute _) fun _ => keeps_showNotice _

theorem keeps_editContactAction (ui : Ui) (contact : ContactRow) : Keeps (editContactAction ui contact) := by
  refine .bind (keeps_textInput ui _) fun r => ?_
  cases r with
  | none => exact .pure _
  | some name =>
    refine .bind (keeps_textInput ui _) fun r => ?_
    cases r with
    | none => exact .pure _
    | some number => exact .bind (keeps_execute _) fun _ => keeps_showNotice _

theorem keeps_deleteContactAction (contact : ContactRow) : Keeps (deleteContactAction contact) :=
  .bind (keeps_execute _) fun _ => keeps_showNotice _

theorem keeps_runContactOptions (ui : Ui) (contact : ContactRow) (root : Text) :
    Keeps (runContactOptions ui contact root) := by
  refine .loop (fun list => ?_) _
  refine .bind (keeps_softKey ui _ _ _) fun _ => .bind (keeps_verticalList ui _) fun r => ?_
  match r with
  | (none, _) => exact .pure _
  | (some 0, _) => exact .bind (keeps_showNotice _) fun _ => .pure _
  | (some 1, _) => exact .bind (keeps_editContactAction ui contact) fun _ => .pure _
  | (some 2, _) => exact .bind (keeps_deleteContactAction contact) fun _ => .pure _
  | (some 3, _) => exact .bind (keeps_showNotice _) fun _ => .pure _
  | (some (_ + 4), _) => exact .pure _

theorem keeps_runOptionsSubmenu (ui : Ui) : Keeps (runOptionsSubmenu ui) := by
  refine .loop (fun list => ?_) _
  refine .bind (keeps_softKey ui _ _ _) fun _ => .bind (keeps_verticalList ui _) fun r => ?_
  match r with
  | (none, _) => exact .pure _
  | (some _, _) => exact .pure _

theorem keeps_searchAction (ui : Ui) : Keeps (searchAction ui) := by
  refine .bind (keeps_textInput ui _) fun r => ?_
  cases r with
  | none => exact .pure _
  | some query =>
    simp only []
    split
    · exact .pure _
    refine .bind (keeps_contactSelector ui _ _ _ _) fun r => ?_
    cases r with
    | none => exact .pure _
    | some target => exact keeps_runContactOptions ui _ _

theorem keeps_editAction (ui : Ui) : Keeps (editAction ui) := by
  refine .bind (keeps_contactSelector ui _ _ _ _) fun r => ?_
  cases r with
  | none => exact .pure _
  | some target => exact keeps_editContactAction ui _

theorem keeps_eraseAction (ui : Ui) : Keeps (eraseAction ui) := by
  refine .bind (keeps_contactSelector ui _ _ _ _) fun r => ?_
  cases r with
  | none => exact .pure _
  | some target => exact keeps_deleteContactAction _

theorem keeps_run (ui : Ui) : Keeps (run ui) := by
  refine .loop (fun list => ?_) _
  refine .bind (keeps_softKey ui _ _ _) fun _ => .bind (keeps_verticalList ui _) fun r => ?_
  match r with
  | (none, _) => exact .pure _
  | (some 0, _) => exact .bind (keeps_searchAction ui) fun _ => .pure _
  | (some 1, _) => exact .bind (keeps_addEntryAction ui) fun _ => .pure _
  | (some 2, _) => exact .bind (keeps_editAction ui) fun _ => .pure _
  | (some 3, _) => exact .bind (keeps_eraseAction ui) fun _ => .pure _
  | (some 4, _) => exact .pure _
  | (some 5, _) => exact .bind (keeps_runOptionsSubmenu ui) fun _ => .pure _
  | (some (_ + 6), _) => exact .pure _

end PhoneBook

/-! ## The messages -/

namespace Messages

theorem keeps_deleteInboxMessage (id : ℤ) : Keeps (deleteInboxMessage id) := by
  refine .bind_get fun w => ?_
  split
  · exact .pure _
  · exact keeps_execute _

theorem keeps_deleteOutboxMessage (id : ℤ) : Keeps (deleteOutboxMessage id) := by
  refine .bind_get fun w => ?_
  split
  · exact .pure _
  · exact keeps_execute _

theorem keeps_saveOutboxMessage (text : Text) : Keeps (saveOutboxMessage text) :=
  .bind keeps_now fun _ => keeps_execute _

theorem keeps_emptyState (ui : Ui) (title root : Text) (subIndex : Option ℕ) (message : Text) :
    Keeps (showEmptyState ui title root subIndex message) := by
  refine .bind (keeps_paint _) fun _ => .bind (keeps_softKey ui _ _ _) fun _ =>
    .bind keeps_present fun _ => .loop (fun _ => ?_) _
  refine .bind keeps_waitForKey fun key => ?_
  split
  · exact .pure _
  · exact .pure _

namespace Detail

theorem keeps_draw (ui : Ui) (self : Detail) : Keeps (self.draw ui) :=
  .bind (keeps_paint _) fun _ => .bind keeps_present fun _ => .bind_get fun _ => keeps_record rfl

theorem keeps_inboxChoice (ui : Ui) (self : Detail) : Keeps (self.inboxChoice ui) := by
  refine .bind (keeps_verticalList ui _) fun (selection, _) => ?_
  simp only []
  split
  · exact .bind (keeps_deleteInboxMessage _) fun _ => .bind (keeps_dialog ui _) fun _ => .pure _
  · exact .pure _

theorem keeps_outboxChoice (ui : Ui) (self : Detail) : Keeps (self.outboxChoice ui) := by
  refine .bind (keeps_verticalList ui _) fun (selection, _) => ?_
  simp only []
  split
  · exact .bind (keeps_deleteOutboxMessage _) fun _ => .bind (keeps_dialog ui _) fun _ => .pure _
  · exact .bind (keeps_dialog ui _) fun _ => .pure _
  · exact .pure _

theorem keeps_showModal (ui : Ui) (self : Detail) : Keeps (self.showModal ui) := by
  refine .loop (fun _ => ?_) _
  refine .bind (keeps_draw ui self) fun _ => .bind keeps_waitForKey fun key => ?_
  have answer : ∀ erased : Bool,
      Keeps (if erased = true then pure (.inr true) else pure (.inl ()) : UI (Unit ⊕ Bool)) := by
    intro erased
    split <;> exact .pure _
  split
  · exact .pure _
  split
  · split
    · exact .bind (keeps_inboxChoice ui self) answer
    split
    · exact .bind (keeps_outboxChoice ui self) answer
    · exact .pure _
  · exact .pure _

end Detail

theorem keeps_mailbox {ρ : Type} (ui : Ui) (title root : Text) {fetch : UI (List (ℤ × ρ))}
    (hfetch : Keeps fetch) (item : ℤ × ρ → Text) (detail : ℕ → ℤ × ρ → Detail) (u : Unit) :
    Keeps (loop (mailboxBody ui title root fetch item detail) u) := by
  refine .loop (fun _ => ?_) u
  refine .bind hfetch fun messages => ?_
  split
  · exact .bind (keeps_emptyState ui _ _ _ _) fun _ => .pure _
  refine .bind (keeps_softKey ui _ _ _) fun _ => .bind (keeps_verticalList ui _) fun r => ?_
  match r with
  | (none, _) => exact .pure _
  | (some i, _) =>
    exact .bind (keeps_attempt _) fun row => .bind (Detail.keeps_showModal ui _) fun _ => .pure _

theorem keeps_composerDraw (ui : Ui) (self : Composer) : Keeps (self.draw ui) :=
  .bind (keeps_textInputLong ui _ _) fun _ => keeps_softKey ui _ _ _

theorem keeps_options (ui : Ui) (self : Composer) : Keeps (self.options ui) := by
  refine .bind (keeps_verticalList ui _) fun r => ?_
  match r with
  | (none, _) => exact .pure _
  | (some 0, _) => exact .bind (keeps_dialog ui _) fun _ => .pure _
  | (some 1, _) => exact .bind (keeps_saveOutboxMessage _) fun _ => .bind (keeps_dialog ui _) fun _ => .pure _
  | (some (_ + 2), _) => exact .pure _

theorem keeps_composerBody (ui : Ui) (self : Composer) : Keeps (composerBody ui self) := by
  have hblink : Keeps (self.blink ui) := by
    refine .bind keeps_now fun t => ?_
    split
    · exact .bind (keeps_composerDraw ui _) fun _ => .pure _
    · exact .pure _
  refine .bind hblink fun self => .bind keeps_waitForKey fun key => ?_
  split
  · exact .bind (keeps_options ui self) fun _ => .bind (keeps_composerDraw ui self) fun _ => .pure _
  refine .bind keeps_now fun t => ?_
  simp only []
  split
  · exact .pure _
  · exact .bind (keeps_composerDraw ui _) fun _ => .pure _

theorem keeps_run (ui : Ui) : Keeps (run ui) := by
  refine .loop (fun menu => ?_) _
  refine .bind (keeps_pagedList ui menu) fun r => ?_
  match r with
  | (none, _) => exact .pure _
  | (some 0, _) => exact .bind (keeps_mailbox ui _ _ keeps_fetchInbox _ _ _) fun _ => .pure _
  | (some 1, _) => exact .bind (keeps_mailbox ui _ _ keeps_fetchOutbox _ _ _) fun _ => .pure _
  | (some 2, _) =>
    refine .bind (.bind keeps_now fun t => .bind (keeps_composerDraw ui _) fun _ => ?_) fun _ => .pure _
    exact .loop (keeps_composerBody ui) _
  | (some (_ + 3), _) => exact .pure _

end Messages

/-! ## The main loop -/

/-- Entries that are neither statements nor listings. -/
theorem Logged.kept {evs : List Event} {w w' : World} (hevs : ∀ e ∈ evs, e.plain = true)
    (h : Logged evs w w') : Kept w w' := by
  unfold Kept
  rw [h.log, h.db]
  exact History.idle fun l e he => .plain _ l (hevs e he)

theorem keeps_calling (ui : Ui) (number : PyVal) : Keeps (CallScreen.showCalling ui number) := by
  have shown : ∀ {evs}, CallScreen.Showings number evs → ∀ e ∈ evs, e.plain = true := by
    intro evs h e he
    rw [h e he]
    rfl
  refine .of_wp (CallScreen.showCalling_spec ui number) ?_ ?_
  · rintro w _ w' ⟨evs, hevs, h⟩
    refine h.kept fun e he => ?_
    rcases List.mem_append.mp he with he | he
    · exact shown hevs e he
    · rw [List.mem_singleton.mp he]
      rfl
  · rintro w _ w' ⟨evs, hevs, h⟩
    exact h.kept (shown hevs)

theorem keeps_setState (state : UiState) : Keeps (setState state) := fun _ => .start

theorem keeps_setDialBuffer (buffer : Text) : Keeps (setDialBuffer buffer) := fun _ => .start

theorem keeps_handleCenter (ui : Ui) : Keeps (handleCenter ui) := by
  refine .bind_get fun w => ?_
  cases w.state with
  | HOME => exact keeps_setState _
  | HOME_DIALING =>
    exact .bind (keeps_record rfl) fun _ => .bind (keeps_calling ui _) fun _ =>
      .bind (keeps_setDialBuffer _) fun _ => keeps_setState _
  | MENU => exact .pure _

theorem keeps_handleBackspace : Keeps handleBackspace := by
  refine .bind_get fun w => ?_
  split
  · refine .bind (keeps_setDialBuffer _) fun _ => ?_
    split
    · exact keeps_setState _
    · exact .pure _
  · exact .pure _

theorem keeps_handleContacts (ui : Ui) : Keeps (handleContacts ui) := by
  refine .bind (keeps_contactSelector ui _ _ _ _) fun target => ?_
  cases target with
  | none => exact .pure _
  | some target =>
    exact .bind (keeps_attempt _) fun _ => .bind (keeps_attempt _) fun _ =>
      .bind (keeps_record rfl) fun _ => keeps_calling ui _

theorem keeps_handleTyping (code : ℕ) : Keeps (handleTyping code) := by
  refine .bind_get fun w => ?_
  cases devKeymap.lookup code with
  | none => exact .pure _
  | some char =>
    simp only []
    split
    · exact .bind (keeps_setDialBuffer _) fun _ => keeps_setState _
    · exact .pure _

theorem keeps_handleInput (ui : Ui) (code : ℕ) : Keeps (handleInput ui code) := by
  refine .bind_get fun w => .bind (keeps_record rfl) fun _ => ?_
  split
  · exact keeps_handleCenter ui
  split
  · exact keeps_handleBackspace
  split
  · exact keeps_handleContacts ui
  · exact keeps_handleTyping code

theorem keeps_launchBundled {others : AppEntry → UI Unit} (hothers : ∀ app, Keeps (others app)) (ui : Ui)
    (app : AppEntry) : Keeps (launchBundled others ui app) := by
  unfold launchBundled
  split
  · exact PhoneBook.keeps_run ui
  split
  · exact Messages.keeps_run ui
  split
  · exact keeps_reads (NotImplementedApp.run_spec ui)
  · exact hothers app

theorem keeps_update {launch : AppEntry → UI Unit} (hlaunch : ∀ app, Keeps (launch app)) (ui : Ui) :
    Keeps (update launch ui) := by
  refine .bind_get fun w => ?_
  cases w.state with
  | HOME =>
    exact .bind (keeps_attempt _) fun _ => .bind (keeps_paint _) fun _ =>
      .bind (keeps_softKey ui _ _ _) fun _ => keeps_present
  | HOME_DIALING =>
    exact .bind (keeps_paint _) fun _ => .bind (keeps_softKey ui _ _ _) fun _ => keeps_present
  | MENU =>
    refine .bind (keeps_appSelector ui _) fun choice => ?_
    cases choice with
    | none => exact keeps_setState _
    | some i =>
      simp only []
      cases ui.apps[i]? with
      | none => exact .throw _
      | some app => exact .bind (hlaunch app) fun _ => keeps_setState _

/-- **The main loop keeps its journal**, whatever apps it launches that do. -/
theorem keeps_mainLoop {launch : AppEntry → UI Unit} (hlaunch : ∀ app, Keeps (launch app)) (ui : Ui) :
    Keeps (mainLoop launch ui) := by
  refine .loop (fun _ => ?_) _
  refine .bind (keeps_update hlaunch ui) fun _ => .bind keeps_readKey fun key => ?_
  cases key with
  | none => exact .pure _
  | some key => exact .bind (keeps_handleInput ui key) fun _ => .pure _

/-! ## Sessions -/

/-- The notice of ErrorScreen, shown once. -/
def securityNotice : MessageDialog where
  message := ("This is alpha software. There is currently no real security implemented whatsoever and " ++
    "all development features are enabled by default. " ++
    "DO NOT STORE SENSITIVE DATA ON THIS DEVICE!!!").toList
  title := some "Security warning".toList

/-- One time that the phone is switched on. -/
structure Session where
  ui : Ui
  /-- What launching an app runs. -/
  launch : AppEntry → UI Unit
  /-- Whether `.ack_security_warning` is there. -/
  acknowledged : Bool
  /-- The polls until it is switched off. -/
  polls : List Poll

/-- `show_alpha_security_notice_once`.  There is no image cache yet, so that no image is found. -/
def Session.notice (s : Session) : UI Unit :=
  if s.acknowledged then pure ()
  else do
    let _ ← securityNotice.showModal { s.ui with getImage := fun _ => none }
    pure ()

/-- `NeoDCT_UI.__init__` after `init_databases`, and `run`. -/
def Session.run (s : Session) : UI Empty := do
  s.notice
  mainLoop s.launch s.ui

/-- What a session leaves. -/
def Session.world (s : Session) (d : Db) : World := finalState s.run (World.boot d s.polls)

/-- Switched off, and on again: `init_databases`. -/
def Db.reboot (d : Db) : Db := initDatabases (some d.contacts) d.inbox d.outbox

inductive LifeEvent where
  | entry (e : Event)
  | reboot

/-- One session after the other, from the databases of the first: those of the last, and what happened. -/
def life : Db → List Session → Db × List LifeEvent
  | d, [] => (d, [])
  | d, s :: sessions =>
    let w := s.world d
    let rest := life w.db.reboot sessions
    (rest.1, w.log.map .entry ++ .reboot :: rest.2)

/-- A step in the life of a phone. -/
inductive LifeStep : Db → List LifeEvent → LifeEvent → Db → Prop
  | entry {d d' : Db} {l : List LifeEvent} {e : Event} (h : Record d [] e d') : LifeStep d l (.entry e) d'
  | reboot {d : Db} {l : List LifeEvent} : LifeStep d l .reboot d.reboot

/-- The apps of a session write to the databases by statements in the journal only, and list what is in
them.  The Phone book, Messages and the apps that are not implemented do (`keeps_launchBundled`). -/
def Session.Keeping (s : Session) : Prop := ∀ app, Keeps (s.launch app)

theorem Session.keeps_run {s : Session} (hs : s.Keeping) : Keeps s.run := by
  have hnotice : Keeps s.notice := by
    unfold Session.notice
    split
    · exact .pure _
    · exact .bind (keeps_dialog _ _) fun _ => .pure _
  exact hnotice.bind fun _ => keeps_mainLoop hs s.ui

/-- The entries of a session, in the life of the phone. -/
theorem life_entries {d d' : Db} {l : List Event} (h : History Record [] d l d') (l₀ : List LifeEvent) :
    History LifeStep l₀ d (l₀ ++ l.map .entry) d' := by
  induction h with
  | start =>
    rw [List.map_nil, List.append_nil]
    exact .start
  | snoc _ hs ih =>
    rw [List.map_append, ← List.append_assoc]
    exact ih.snoc (.entry ⟨hs.db, hs.contacts, hs.inbox, hs.outbox⟩)

theorem life_history (d : Db) {sessions : List Session} (hkeeping : ∀ s ∈ sessions, s.Keeping)
    (l₀ : List LifeEvent) :
    History LifeStep l₀ d (l₀ ++ (life d sessions).2) (life d sessions).1 := by
  induction sessions generalizing d l₀ with
  | nil =>
    rw [life, List.append_nil]
    exact .start
  | cons s sessions ih =>
    have hsession : History Record [] d (s.world d).log (s.world d).db :=
      (Session.keeps_run (hkeeping s List.mem_cons_self)).finalState (World.boot d s.polls)
    have hboot := (life_entries hsession l₀).snoc .reboot
    have hlater : ∀ s ∈ sessions, s.Keeping := fun s hs => hkeeping s (List.mem_cons_of_mem _ hs)
    have hrest := hboot.trans (ih (s.world d).db.reboot hlater _)
    simpa [life] using hrest

/-! ## Ids -/

/-- The tables of the phone. -/
inductive Store where
  | contacts
  | inbox
  | outbox
deriving DecidableEq, Repr

/-- An entry that lists a row with this id. -/
def LifeEvent.lists (m : Store) (id : ℤ) : LifeEvent → Bool
  | .entry (.fetchedContacts _ rows) => m = .contacts && rows.any (·.1 = id)
  | .entry (.fetchedInbox rows) => m = .inbox && rows.any (·.1 = id)
  | .entry (.fetchedOutbox rows) => m = .outbox && rows.any (·.1 = id)
  | _ => false

/-- The statement that erases the row with this id. -/
def LifeEvent.erases (m : Store) (id : ℤ) : LifeEvent → Bool
  | .entry (.sql (.deleteContact i)) => m = .contacts && i = id
  | .entry (.sql (.deleteInbox i)) => m = .inbox && i = id
  | .entry (.sql (.deleteOutbox i)) => m = .outbox && i = id
  | _ => false

/-- The largest id that a table has given out, and the ids that are in it. -/
structure Ids where
  seq : ℤ
  used : List ℤ

def AutoTable.ids {ρ : Type} (t : AutoTable ρ) : Ids := ⟨t.seq, t.rows.map (·.1)⟩

/-- A table that is not there has given out no id. -/
def Db.ids (d : Db) : Store → Ids
  | .contacts => AutoTable.ids d.contacts
  | .inbox => AutoTable.ids (d.inbox.getD .empty)
  | .outbox => AutoTable.ids (d.outbox.getD .empty)

/-- Ids in use leave, and new ones are larger than all before. -/
structure Ids.Grows (a b : Ids) : Prop where
  seq_le : a.seq ≤ b.seq
  used : ∀ i ∈ b.used, i ∈ a.used ∨ a.seq < i

theorem Ids.Grows.refl (a : Ids) : a.Grows a := ⟨le_rfl, fun _ h => Or.inl h⟩

section
variable {ρ : Type} (t : AutoTable ρ)

theorem grows_insert (x : ρ) : (AutoTable.ids t).Grows (AutoTable.ids (t.insert x)) where
  seq_le := by
    show t.seq ≤ t.seq + 1
    omega
  used := by
    intro i hi
    obtain ⟨r, hr, rfl⟩ := List.mem_map.mp hi
    rcases (t.mem_insert x r).mp hr with hr | rfl
    · exact Or.inl (List.mem_map_of_mem hr)
    · right
      show t.seq < t.seq + 1
      omega

theorem grows_update (id : ℤ) (f : ρ → ρ) : (AutoTable.ids t).Grows (AutoTable.ids (t.update id f)) where
  seq_le := le_rfl
  used := by
    intro i hi
    obtain ⟨r, hr, rfl⟩ := List.mem_map.mp hi
    obtain ⟨s, hs, rfl⟩ := List.mem_map.mp hr
    left
    have hid : (if s.1 = id then (s.1, f s.2) else s).1 = s.1 := by split <;> rfl
    rw [hid]
    exact List.mem_map_of_mem hs

theorem grows_delete (id : ℤ) : (AutoTable.ids t).Grows (AutoTable.ids (t.delete id)) where
  seq_le := le_rfl
  used := by
    intro i hi
    obtain ⟨r, hr, rfl⟩ := List.mem_map.mp hi
    exact Or.inl (List.mem_map_of_mem ((t.mem_delete id r).mp hr).1)

theorem not_mem_delete (id : ℤ) : id ∉ (AutoTable.ids (t.delete id)).used := by
  intro hid
  obtain ⟨r, hr, hr1⟩ := List.mem_map.mp hid
  exact ((t.mem_delete id r).mp hr).2 hr1

theorem le_seq_of_used {id : ℤ} (h : id ∈ (AutoTable.ids t).used) : id ≤ (AutoTable.ids t).seq := by
  obtain ⟨r, hr, rfl⟩ := List.mem_map.mp h
  exact t.le_seq r hr

end

/-- What a statement does to the ids of a table. -/
theorem grows_run (d : Db) (stmt : Stmt) (m : Store) : (d.ids m).Grows ((stmt.run d).ids m) := by
  cases m with
  | contacts =>
    cases stmt with
    | insertContact name number speedDial => exact grows_insert d.contacts _
    | updateContact name number id => exact grows_update d.contacts id _
    | deleteContact id => exact grows_delete d.contacts id
    | _ => exact .refl _
  | inbox =>
    cases stmt with
    | deleteInbox id =>
      unfold Db.ids Stmt.run
      cases d.inbox with
      | none => exact .refl _
      | some t => exact grows_delete t id
    | _ => exact .refl _
  | outbox =>
    cases stmt with
    | deleteOutbox id =>
      unfold Db.ids Stmt.run
      cases d.outbox with
      | none => exact .refl _
      | some t => exact grows_delete t id
    | insertOutbox message ts => exact grows_insert (d.outbox.getD .empty) _
    | _ => exact .refl _

theorem grows_reboot (d : Db) (m : Store) : (d.ids m).Grows (d.reboot.ids m) := by
  cases m with
  | contacts =>
    show (AutoTable.ids d.contacts).Grows (AutoTable.ids (if _ then _ else _))
    split
    · exact grows_insert d.contacts _
    · exact .refl _
  | inbox => exact .refl _
  | outbox => exact .refl _

section
variable {d d' : Db} {l : List LifeEvent} {e : LifeEvent} {m : Store} {id : ℤ}

theorem LifeStep.grows (h : LifeStep d l e d') (m : Store) : (d.ids m).Grows (d'.ids m) := by
  cases h with
  | @entry _ _ e h =>
    rw [h.db]
    cases e with
    | sql stmt => exact grows_run d stmt m
    | _ => exact .refl _
  | reboot => exact grows_reboot d m

/-- What is listed is in use. -/
theorem LifeStep.listed (h : LifeStep d l e d') (hl : e.lists m id = true) : id ∈ (d.ids m).used := by
  have of_rows : ∀ {ρ : Type} {t : AutoTable ρ} {rows : List (ℤ × ρ)}, (∀ r ∈ rows, r ∈ t.rows) →
      rows.any (·.1 = id) = true → id ∈ (AutoTable.ids t).used := by
    intro ρ t rows hrows hany
    obtain ⟨r, hr, hid⟩ := List.any_eq_true.mp hany
    rw [← of_decide_eq_true hid]
    exact List.mem_map_of_mem (hrows r hr)
  have of_mail : ∀ {ρ : Type} {timestamp : ρ → ℤ} {t : Option (AutoTable ρ)} {r : ℤ × ρ},
      r ∈ Messages.byTimestamp timestamp t → r ∈ (t.getD .empty).rows := by
    intro ρ timestamp t r hr
    obtain ⟨t', rfl, hmem⟩ := Messages.mem_byTimestamp hr
    exact hmem
  cases h with
  | reboot => cases hl
  | @entry _ _ e h =>
    cases e with
    | fetchedContacts q rows =>
      obtain ⟨hm, hany⟩ := Bool.and_eq_true_iff.mp hl
      obtain rfl := of_decide_eq_true hm
      refine of_rows (fun r hr => ?_) hany
      rw [h.contacts q rows rfl] at hr
      exact mem_getAllContacts hr
    | fetchedInbox rows =>
      obtain ⟨hm, hany⟩ := Bool.and_eq_true_iff.mp hl
      obtain rfl := of_decide_eq_true hm
      refine of_rows (fun r hr => ?_) hany
      rw [h.inbox rows rfl] at hr
      exact of_mail hr
    | fetchedOutbox rows =>
      obtain ⟨hm, hany⟩ := Bool.and_eq_true_iff.mp hl
      obtain rfl := of_decide_eq_true hm
      refine of_rows (fun r hr => ?_) hany
      rw [h.outbox rows rfl] at hr
      exact of_mail hr
    | _ => cases hl

/-- What is erased is in use no more. -/
theorem LifeStep.erased (h : LifeStep d l e d') (he : e.erases m id = true) : id ∉ (d'.ids m).used := by
  cases h with
  | reboot => cases he
  | @entry _ _ e h =>
    cases e with
    | sql stmt =>
      rw [h.db]
      cases stmt with
      | deleteContact i =>
        obtain ⟨hm, hid⟩ := Bool.and_eq_true_iff.mp he
        obtain rfl := of_decide_eq_true hm
        obtain rfl := of_decide_eq_true hid
        exact not_mem_delete d.contacts i
      | deleteInbox i =>
        obtain ⟨hm, hid⟩ := Bool.and_eq_true_iff.mp he
        obtain rfl := of_decide_eq_true hm
        obtain rfl := of_decide_eq_true hid
        show i ∉ (AutoTable.ids ((d.inbox.map fun t => t.delete i).getD .empty)).used
        cases d.inbox with
        | none => exact List.not_mem_nil
        | some t => exact not_mem_delete t i
      | deleteOutbox i =>
        obtain ⟨hm, hid⟩ := Bool.and_eq_true_iff.mp he
        obtain rfl := of_decide_eq_true hm
        obtain rfl := of_decide_eq_true hid
        show i ∉ (AutoTable.ids ((d.outbox.map fun t => t.delete i).getD .empty)).used
        cases d.outbox with
        | none => exact List.not_mem_nil
        | some t => exact not_mem_delete t i
      | _ => cases he
    | _ => cases he

/-- An id that was given out stays given out, and does not come back into use. -/
theorem history_ids {l₀ : List LifeEvent} (h : History LifeStep l₀ d l d') (m : Store) :
    (d.ids m).seq ≤ (d'.ids m).seq ∧
      ∀ i, i ≤ (d.ids m).seq → i ∉ (d.ids m).used → i ∉ (d'.ids m).used := by
  induction h with
  | start => exact ⟨le_rfl, fun _ _ h => h⟩
  | snoc _ hs ih =>
    have hgrows := hs.grows m
    refine ⟨ih.1.trans hgrows.seq_le, fun i hi hnot hmem => ?_⟩
    rcases hgrows.used i hmem with hused | hnew
    · exact ih.2 i hi hnot hused
    · have := ih.1
      omega

end

/-- The step at a place in the life of a phone, and what is before and after it. -/
theorem life_at {d₀ d : Db} {l : List LifeEvent} {i : ℕ} {p : LifeEvent → Bool}
    (h : History LifeStep [] d₀ l d) (hi : (l[i]?).any p = true) :
    ∃ e t t', p e = true ∧ History LifeStep [] d₀ (l.take i) t ∧ LifeStep t (l.take i) e t' ∧
      History LifeStep (l.take (i + 1)) t' l d := by
  cases hget : l[i]? with
  | none =>
    rw [hget] at hi
    cases hi
  | some e =>
    rw [hget] at hi
    obtain ⟨hlt, he⟩ := List.getElem?_eq_some_iff.mp hget
    have hl : l = [] ++ l.take i ++ e :: l.drop (i + 1) := by
      rw [List.nil_append, ← he, ← List.drop_eq_getElem_cons hlt, List.take_append_drop]
    obtain ⟨t, t', hbefore, hstep, hafter⟩ := h.split hl
    rw [List.nil_append] at hbefore hstep hafter
    refine ⟨e, t, t', hi, hbefore, hstep, ?_⟩
    rwa [List.take_add_one, hget]

/-- **What is erased never comes back**: a row that was listed once and then erased is listed no more, in
this session and in all that follow, as long as the apps keep to their statements. -/
theorem never_again (d : Db) (sessions : List Session) (hkeeping : ∀ s ∈ sessions, s.Keeping) (m : Store)
    (id : ℤ) {i j k : ℕ} (hij : i < j) (hjk : j < k)
    (hlisted : ((life d sessions).2[i]?).any (·.lists m id) = true)
    (herased : ((life d sessions).2[j]?).any (·.erases m id) = true) :
    ((life d sessions).2[k]?).any (·.lists m id) = false := by
  have hlife := life_history d hkeeping []
  rw [List.nil_append] at hlife
  rw [Bool.eq_false_iff]
  intro hagain
  obtain ⟨_, s, _, hagain, hbefore, hstep, -⟩ := life_at hlife hagain
  have hj : (((life d sessions).2.take k)[j]?).any (·.erases m id) = true := by
    rwa [List.getElem?_take_of_lt hjk]
  obtain ⟨_, t, t', herased, hbefore, hdelete, hlater⟩ := life_at hbefore hj
  have hi : ((((life d sessions).2.take k).take j)[i]?).any (·.lists m id) = true := by
    rwa [List.getElem?_take_of_lt hij, List.getElem?_take_of_lt (hij.trans hjk)]
  obtain ⟨_, u, u', hlisted, -, hshown, hlater'⟩ := life_at hbefore hi
  have hissued : id ≤ (u.ids m).seq := by
    have hused := hshown.listed hlisted
    cases m
    exacts [le_seq_of_used _ hused, le_seq_of_used _ hused, le_seq_of_used _ hused]
  have hknown : id ≤ (t'.ids m).seq :=
    ((hissued.trans (hshown.grows m).seq_le).trans (history_ids hlater' m).1).trans
      (hdelete.grows m).seq_le
  exact (history_ids hlater m).2 id hknown (hdelete.erased herased) (hstep.listed hagain)

/-- Menu, Phone book, Erase, the first contact, and Erase again. -/
def erasing : Session where
  ui := bundledUi
  launch := launchBundled noOthers bundledUi
  acknowledged := true
  polls := [.press 1 28, ⟨2, none⟩, .press 3 28, .press 4 108, .press 5 108, .press 6 108, .press 7 28,
    .press 8 28, .press 9 28]

theorem erasing_keeping : ∀ s ∈ [erasing, erasing], s.Keeping := by
  intro s hs
  obtain rfl : s = erasing := by simpa using hs
  exact keeps_launchBundled (fun _ => .pure _) bundledUi

/-- The default contact is erased; the next boot makes another. -/
theorem never_again_default :
    ((life (initDatabases none none none) [erasing, erasing]).2[10]?).any (·.lists .contacts 1) = false ∧
    ((life (initDatabases none none none) [erasing, erasing]).2[10]?).any (·.lists .contacts 2) = true :=
  ⟨never_again (initDatabases none none none) [erasing, erasing] erasing_keeping .contacts 1 (i := 2) (j := 4) (by decide)
    (by decide) (by decide +kernel) (by decide +kernel), by decide +kernel⟩

/-! ## Where the rows come from, and where they go -/

/-- A statement that leaves this contact in the phonebook. -/
def LifeEvent.writes (row : ContactRow) : LifeEvent → Bool
  | .entry (.sql (.insertContact name number speedDial)) => row.2 = ⟨name, number, speedDial⟩
  | .entry (.sql (.updateContact name number id)) =>
    row.1 = id && row.2.name = name && row.2.number = number
  | _ => false

/-- A statement that saves this text. -/
def LifeEvent.saves (row : ℤ × OutboxMessage) : LifeEvent → Bool
  | .entry (.sql (.insertOutbox message timestamp)) => row.2 = ⟨message, timestamp⟩
  | _ => false

/-- `NeoDCT Support`, which a boot adds to an empty phonebook. -/
def supportContact : Contact := ⟨"NeoDCT Support".toList, "555-1234".toList, 2⟩

/-- Rows that were there, rows that are there, and a journal between. -/
structure Accounted (d : Db) (l : List LifeEvent) (d' : Db) : Prop where
  contacts : ∀ r ∈ d'.contacts.rows, r ∈ d.contacts.rows ∨ r.2 = supportContact ∨ ∃ e ∈ l, e.writes r = true
  contactIds : ∀ r ∈ d.contacts.rows,
    (∃ r' ∈ d'.contacts.rows, r'.1 = r.1) ∨ ∃ e ∈ l, e.erases .contacts r.1 = true
  inbox : (d'.inbox.getD .empty).rows.Sublist (d.inbox.getD .empty).rows
  inboxRows : ∀ r ∈ (d.inbox.getD .empty).rows,
    r ∈ (d'.inbox.getD .empty).rows ∨ ∃ e ∈ l, e.erases .inbox r.1 = true
  outbox : ∀ r ∈ (d'.outbox.getD .empty).rows,
    r ∈ (d.outbox.getD .empty).rows ∨ ∃ e ∈ l, e.saves r = true
  outboxRows : ∀ r ∈ (d.outbox.getD .empty).rows,
    r ∈ (d'.outbox.getD .empty).rows ∨ ∃ e ∈ l, e.erases .outbox r.1 = true

namespace Accounted

theorem refl (d : Db) (l : List LifeEvent) : Accounted d l d where
  contacts _ hr := Or.inl hr
  contactIds r hr := Or.inl ⟨r, hr, rfl⟩
  inbox := .refl _
  inboxRows _ hr := Or.inl hr
  outbox _ hr := Or.inl hr
  outboxRows _ hr := Or.inl hr

variable {d d₁ d₂ : Db} {l l' : List LifeEvent}

theorem exists_append {p : LifeEvent → Bool} : (∃ e ∈ l ++ l', p e = true) ↔
    (∃ e ∈ l, p e = true) ∨ ∃ e ∈ l', p e = true := by
  simp only [List.mem_append, or_and_right, exists_or]

/-- One journal after the other. -/
theorem trans (h : Accounted d l d₁) (h' : Accounted d₁ l' d₂) : Accounted d (l ++ l') d₂ where
  contacts r hr := by
    rw [exists_append]
    rcases h'.contacts r hr with hr | hr | hr
    · rcases h.contacts r hr with hr | hr | hr
      · exact Or.inl hr
      · exact Or.inr (Or.inl hr)
      · exact Or.inr (Or.inr (Or.inl hr))
    · exact Or.inr (Or.inl hr)
    · exact Or.inr (Or.inr (Or.inr hr))
  contactIds r hr := by
    rw [exists_append]
    rcases h.contactIds r hr with ⟨r', hr', hid⟩ | hr
    · rcases h'.contactIds r' hr' with ⟨r'', hr'', hid'⟩ | hr'
      · exact Or.inl ⟨r'', hr'', hid'.trans hid⟩
      · rw [hid] at hr'
        exact Or.inr (Or.inr hr')
    · exact Or.inr (Or.inl hr)
  inbox := h'.inbox.trans h.inbox
  inboxRows r hr := by
    rw [exists_append]
    rcases h.inboxRows r hr with hr | hr
    · exact (h'.inboxRows r hr).imp_right Or.inr
    · exact Or.inr (Or.inl hr)
  outbox r hr := by
    rw [exists_append]
    rcases h'.outbox r hr with hr | hr
    · exact (h.outbox r hr).imp_right Or.inl
    · exact Or.inr (Or.inr hr)
  outboxRows r hr := by
    rw [exists_append]
    rcases h.outboxRows r hr with hr | hr
    · exact (h'.outboxRows r hr).imp_right Or.inr
    · exact Or.inr (Or.inl hr)

end Accounted

/-- A row that a deletion does not take. -/
theorem mem_or_deleted {ρ : Type} {t : AutoTable ρ} {r : ℤ × ρ} (hr : r ∈ t.rows) (id : ℤ) :
    r ∈ (t.delete id).rows ∨ id = r.1 := by
  by_cases hid : r.1 = id
  · exact Or.inr hid.symm
  · exact Or.inl ((t.mem_delete id r).mpr ⟨hr, hid⟩)

/-- A table that is not there has no rows to delete. -/
theorem getD_delete {ρ : Type} (table : Option (AutoTable ρ)) (id : ℤ) :
    (table.map fun t => t.delete id).getD .empty = (table.getD .empty).delete id := by
  cases table with
  | none => rfl
  | some t => rfl

/-- One statement. -/
theorem accounted_stmt (d : Db) (stmt : Stmt) : Accounted d [.entry (.sql stmt)] (stmt.run d) := by
  have said : ∀ {p : LifeEvent → Bool}, p (.entry (.sql stmt)) = true →
      ∃ e ∈ [LifeEvent.entry (.sql stmt)], p e = true := fun h => ⟨_, List.mem_singleton_self _, h⟩
  have same := Accounted.refl d [LifeEvent.entry (.sql stmt)]
  cases stmt with
  | insertContact name number speedDial =>
    refine { same with contacts := fun r hr => ?_, contactIds := fun r hr => ?_ }
    · rcases (d.contacts.mem_insert _ r).mp hr with hr | rfl
      · exact Or.inl hr
      · exact Or.inr (Or.inr (said (decide_eq_true rfl)))
    · exact Or.inl ⟨r, (d.contacts.mem_insert _ r).mpr (Or.inl hr), rfl⟩
  | updateContact name number id =>
    refine { same with contacts := fun r hr => ?_, contactIds := fun r hr => ?_ }
    · obtain ⟨s, hs, rfl⟩ := List.mem_map.mp hr
      split
      next hid =>
        refine Or.inr (Or.inr (said ?_))
        show (decide (s.1 = id) && decide (name = name) && decide (number = number)) = true
        simp [hid]
      next => exact Or.inl hs
    · refine Or.inl ⟨_, List.mem_map_of_mem hr, ?_⟩
      split <;> rfl
  | deleteContact id =>
    refine { same with contacts := fun r hr => ?_, contactIds := fun r hr => ?_ }
    · exact Or.inl ((d.contacts.mem_delete id r).mp hr).1
    · rcases mem_or_deleted hr id with hr | hid
      · exact Or.inl ⟨r, hr, rfl⟩
      · exact Or.inr (said (by simp [LifeEvent.erases, hid]))
  | deleteInbox id =>
    have hrows : ((Stmt.deleteInbox id).run d).inbox.getD .empty = (d.inbox.getD .empty).delete id :=
      getD_delete d.inbox id
    refine { same with inbox := ?_, inboxRows := fun r hr => ?_ }
    · rw [hrows]
      exact List.filter_sublist
    · rw [hrows]
      exact (mem_or_deleted hr id).imp_right fun hid => said (by simp [LifeEvent.erases, hid])
  | deleteOutbox id =>
    have hrows : ((Stmt.deleteOutbox id).run d).outbox.getD .empty = (d.outbox.getD .empty).delete id :=
      getD_delete d.outbox id
    refine { same with outbox := fun r hr => ?_, outboxRows := fun r hr => ?_ }
    · rw [hrows] at hr
      exact Or.inl ((AutoTable.mem_delete _ id r).mp hr).1
    · rw [hrows]
      exact (mem_or_deleted hr id).imp_right fun hid => said (by simp [LifeEvent.erases, hid])
  | insertOutbox message timestamp =>
    refine { same with outbox := fun r hr => ?_, outboxRows := fun r hr => ?_ }
    · rcases (AutoTable.mem_insert _ _ r).mp hr with hr | rfl
      · exact Or.inl hr
      · exact Or.inr (said (decide_eq_true rfl))
    · exact Or.inl ((AutoTable.mem_insert _ _ r).mpr (Or.inl hr))

/-- A boot adds one contact, or nothing. -/
theorem accounted_reboot (d : Db) : Accounted d [.reboot] d.reboot := by
  have same := Accounted.refl d [LifeEvent.reboot]
  by_cases hrows : d.contacts.rows = []
  · have hcontacts : d.reboot.contacts = d.contacts.insert supportContact := if_pos hrows
    refine { same with contacts := fun r hr => ?_, contactIds := fun r hr => ?_ }
    · rw [hcontacts] at hr
      rcases (d.contacts.mem_insert _ r).mp hr with hr | rfl
      · exact Or.inl hr
      · exact Or.inr (Or.inl rfl)
    · rw [hrows] at hr
      cases hr
  · have hcontacts : d.reboot.contacts = d.contacts := if_neg hrows
    refine { same with contacts := fun r hr => ?_, contactIds := fun r hr => ?_ }
    · rw [hcontacts] at hr
      exact Or.inl hr
    · rw [hcontacts]
      exact Or.inl ⟨r, hr, rfl⟩

theorem LifeStep.accounted {d d' : Db} {l : List LifeEvent} {e : LifeEvent} (h : LifeStep d l e d') :
    Accounted d [e] d' := by
  cases h with
  | @entry _ _ e h =>
    rw [h.db]
    cases e with
    | sql stmt => exact accounted_stmt d stmt
    | _ => exact .refl d _
  | reboot => exact accounted_reboot d

/-- **Nothing of the user's appears or disappears unaccounted for**, over the whole life of a phone: a
contact was there, is the default one, or was written, and one that is gone was erased; a message is one
that was there, or was saved, and one that is gone was erased; no message is ever added to the inbox.
The apps are those that keep to their statements. -/
theorem life_accounted (d : Db) (sessions : List Session) (hkeeping : ∀ s ∈ sessions, s.Keeping) :
    Accounted d (life d sessions).2 (life d sessions).1 := by
  obtain ⟨j, hj, h⟩ := (life_history d hkeeping []).invariant (fun j d' => Accounted d j d')
    (fun _ _ _ _ h hs => h.trans hs.accounted) (Accounted.refl d [])
  have hlog : (life d sessions).2 = j := by simpa using hj
  rwa [hlog]

/-- The two contacts of the two sessions: the first was there and was erased, the second is a boot's, and
so is the third. -/
theorem life_accounted_default :
    (∀ r ∈ (life (initDatabases none none none) [erasing, erasing]).1.contacts.rows,
      r ∈ (initDatabases none none none).contacts.rows ∨ r.2 = supportContact ∨
        ∃ e ∈ (life (initDatabases none none none) [erasing, erasing]).2, e.writes r = true) ∧
    (life (initDatabases none none none) [erasing, erasing]).1.contacts.rows = [(3, supportContact)] :=
  ⟨(life_accounted (initDatabases none none none) [erasing, erasing] erasing_keeping).contacts,
    by decide +kernel⟩

end NeoDCT
