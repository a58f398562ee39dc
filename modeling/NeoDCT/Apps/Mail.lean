import NeoDCT.Apps.Composer
import NeoDCT.Apps.Session

/-!
# What the Messages app does to the mailboxes

`Change ui m l e m'` lists the ways entry `e` may follow the journal `l` and take the mailboxes from
`m` to `m'`.  A listing shows what is in the table; a write follows the user's choice:

    Erase   [detail view of the row, Erase chosen]        that row is gone
    Save    [composer shows the text, Save chosen]        one new row with that text

Every run of the app is a history of such changes, and an erased row is never listed again
(`mailboxes_change`).  `Visit` says which of the inbox's entries may follow which: a run is also a history
of visits (`run_spec`).
-/

namespace NeoDCT

open PyText Interactive

namespace Messages

structure Mail where
  inbox : Option (AutoTable InboxMessage)
  outbox : Option (AutoTable OutboxMessage)

def mail (d : Db) : Mail := ⟨d.inbox, d.outbox⟩

/-! ## Changes -/

inductive Change (ui : Ui) : Mail → List Event → Event → Mail → Prop
  | screen {m : Mail} {l : List Event} {e : Event} (h : e.isScreen)
      (hinbox : ∀ rows, e = .fetchedInbox rows → rows = inboxRows m.inbox)
      (houtbox : ∀ rows, e = .fetchedOutbox rows → rows = outboxRows m.outbox) : Change ui m l e m
  | eraseInbox {t : AutoTable InboxMessage} {outbox : Option (AutoTable OutboxMessage)}
      {l : List Event} {row : ℤ × InboxMessage} {root : Text} {i : Nat} (hmem : row ∈ t.rows)
      (hrows : (t.delete row.1).rows = t.rows.filter (· ≠ row)) :
      Change ui ⟨some t, outbox⟩
        (l ++ [.detail "Inbox".toList (some row.1) ((inboxDetail root i row).drawOps ui),
          .chose "Options".toList Detail.inboxOptions 0])
        (.sql (.deleteInbox row.1)) ⟨some (t.delete row.1), outbox⟩
  | eraseOutbox {t : AutoTable OutboxMessage} {inbox : Option (AutoTable InboxMessage)}
      {l : List Event} {row : ℤ × OutboxMessage} {root : Text} {i : Nat} (hmem : row ∈ t.rows)
      (hrows : (t.delete row.1).rows = t.rows.filter (· ≠ row)) :
      Change ui ⟨inbox, some t⟩
        (l ++ [.detail "Outbox".toList (some row.1) ((outboxDetail root i row).drawOps ui),
          .chose "Options".toList Detail.outboxOptions 0])
        (.sql (.deleteOutbox row.1)) ⟨inbox, some (t.delete row.1)⟩
  | save {inbox : Option (AutoTable InboxMessage)} {outbox : Option (AutoTable OutboxMessage)}
      {l : List Event} {text : Text} {ts id : ℤ}
      (hnew : ∀ r ∈ (outbox.getD .empty).rows, r.1 < id)
      (hrows : ((outbox.getD .empty).insert ⟨text, ts⟩).rows =
        (outbox.getD .empty).rows ++ [(id, ⟨text, ts⟩)]) :
      Change ui ⟨inbox, outbox⟩
        (l ++ [.editing "Write".toList text, .chose "Options".toList composerOptions 1])
        (.sql (.insertOutbox text ts)) ⟨inbox, some ((outbox.getD .empty).insert ⟨text, ts⟩)⟩

section
variable {ui : Ui}

abbrev Step (ui : Ui) := AppStep (Change ui) mail

/-- An entry about a screen that lists no mailbox. -/
def isPlain : Event → Bool
  | .chose _ _ _ | .back _ _ | .editing _ _ | .detail _ _ _ => true
  | _ => false

theorem Change.plain {m : Mail} {l : List Event} {e : Event} (h : isPlain e) :
    Change ui m l e m := by
  cases e with
  | chose _ _ _ => exact .screen rfl (by simp) (by simp)
  | back _ _ => exact .screen rfl (by simp) (by simp)
  | editing _ _ => exact .screen rfl (by simp) (by simp)
  | detail _ _ _ => exact .screen rfl (by simp) (by simp)
  | _ => cases h

/-! ## Visits to the inbox -/

/-- The inbox message whose detail view is open after `e`, if `o` was open before. -/
def viewedAfter (o : Option ℤ) : Event → Option ℤ
  | .detail title (some id) _ => if title = "Inbox".toList then some id else o
  | .fetchedInbox _ => none
  | .sql (.deleteInbox _) => none
  | _ => o

/-- The inbox message whose detail view is open after the entries `j` of a run. -/
def viewed (j : List Event) : Option ℤ := j.foldl viewedAfter none

@[simp] theorem viewed_snoc (j : List Event) (e : Event) :
    viewed (j ++ [e]) = viewedAfter (viewed j) e := by
  simp [viewed]

def concernsInbox : Event → Bool
  | .detail title _ _ => title = "Inbox".toList
  | .fetchedInbox _ => true
  | .sql (.deleteInbox _) => true
  | _ => false

theorem viewedAfter_of_not {o : Option ℤ} {e : Event} (h : concernsInbox e = false) :
    viewedAfter o e = o := by
  cases e with
  | detail title id frame =>
    cases id with
    | none => rfl
    | some id => exact if_neg (of_decide_eq_false h)
  | fetchedInbox rows => cases h
  | sql stmt =>
    cases stmt with
    | deleteInbox id => cases h
    | _ => rfl
  | _ => rfl

/-- How an entry follows the entries `j` of a run: a view is open on a row, it is left for the
listing from a frame of it, and the row that is open is the one to be erased. -/
inductive Visit : Option (AutoTable InboxMessage) → List Event → Event →
    Option (AutoTable InboxMessage) → Prop
  | away {t : Option (AutoTable InboxMessage)} {j : List Event} {e : Event}
      (h : concernsInbox e = false) : Visit t j e t
  | list {t : Option (AutoTable InboxMessage)} {j : List Event}
      (h : viewed j = none ∨ ∃ j' id frame, j = j' ++ [.detail "Inbox".toList (some id) frame]) :
      Visit t j (.fetchedInbox (inboxRows t)) t
  | frame {t : AutoTable InboxMessage} {j : List Event} {row : ℤ × InboxMessage} {frame : Frame}
      (h : viewed j = none ∨ viewed j = some row.1) (hmem : row ∈ t.rows) :
      Visit (some t) j (.detail "Inbox".toList (some row.1) frame) (some t)
  | erase {t : AutoTable InboxMessage} {j : List Event} {id : ℤ} (h : viewed j = some id) :
      Visit (some t) j (.sql (.deleteInbox id)) (some (t.delete id))

/-- A visit, `l₀` being the journal when the run began. -/
def VisitFrom (l₀ : List Event) (m : Mail) (l : List Event) (e : Event) (m' : Mail) : Prop :=
  ∀ j, l = l₀ ++ j → Visit m.inbox j e m'.inbox

theorem Visit.of_run {l₀ l j : List Event} {e : Event} {m m' : Mail} (hl : l = l₀ ++ j)
    (h : Visit m.inbox j e m'.inbox) : VisitFrom l₀ m l e m' := by
  intro j' hj'
  obtain rfl : j = j' := List.append_cancel_left (hl.symm.trans hj')
  exact h

abbrev Walk (ui : Ui) (l₀ : List Event) :=
  AppStep (fun m l e m' => Change ui m l e m' ∧ VisitFrom l₀ m l e m') mail

/-- Changes that leave the inbox alone. -/
abbrev Away (ui : Ui) :=
  AppStep (fun m l e m' => Change ui m l e m' ∧ m'.inbox = m.inbox ∧ concernsInbox e = false) mail

variable {l₀ : List Event}

theorem Away.walk {w w' : World} (h : Away ui w w') : Walk ui l₀ w w' := by
  refine h.mono ?_
  rintro m l e m' ⟨hchange, hinbox, haway⟩
  refine ⟨hchange, fun j _ => ?_⟩
  rw [hinbox]
  exact .away haway

/-- The run is in the detail view `o`, if any. -/
def Viewing (l₀ : List Event) (o : Option ℤ) (w : World) : Prop :=
  ∃ j, w.log = l₀ ++ j ∧ viewed j = o

theorem Viewing.entry {o : Option ℤ} {e : Event} {w w' : World} (h : Viewing l₀ o w)
    (hlog : w'.log = w.log ++ [e]) : Viewing l₀ (viewedAfter o e) w' := by
  obtain ⟨j, hj, rfl⟩ := h
  refine ⟨j ++ [e], ?_, viewed_snoc j e⟩
  rw [hlog, hj, List.append_assoc]

theorem Viewing.quiet {o : Option ℤ} {w w' : World} (h : Viewing l₀ o w) (hq : Quiet w w') :
    Viewing l₀ o w' := by
  obtain ⟨io, -, rfl⟩ := hq
  exact h

theorem Viewing.away {o : Option ℤ} {w w' : World} (h : Viewing l₀ o w) (ha : Away ui w w') :
    Viewing l₀ o w' := by
  obtain ⟨j, hj, hview⟩ := h
  have hstep : ∀ m evs e m', viewed (j ++ evs) = o →
      Change ui m (w.log ++ evs) e m' ∧ m'.inbox = m.inbox ∧ concernsInbox e = false →
      viewed (j ++ (evs ++ [e])) = o := by
    rintro m evs e m' hevs ⟨-, -, he⟩
    rw [← List.append_assoc, viewed_snoc, viewedAfter_of_not he]
    exact hevs
  obtain ⟨evs, hl, hevs⟩ := ha.history.invariant (fun evs _ => viewed (j ++ evs) = o) hstep
    (by rwa [List.append_nil])
  refine ⟨j ++ evs, ?_, hevs⟩
  rw [hl, hj, List.append_assoc]

/-- Entries about screens that list no mailbox and show no inbox message. -/
theorem away_of_logged {evs : List Event} {w w' : World}
    (hevs : ∀ e ∈ evs, isPlain e ∧ concernsInbox e = false) (h : Logged evs w w') :
    Away ui w w' :=
  AppStep.of_logged (fun _ e he => ⟨.plain (hevs e he).1, rfl, (hevs e he).2⟩) h

theorem closed_away (self : VerticalList) {r : Option Nat} {w w' : World}
    (h : Logged [self.closed r] w w') : Away ui w w' := by
  refine away_of_logged (fun e he => ?_) h
  rw [List.mem_singleton] at he
  subst he
  cases r <;> exact ⟨rfl, rfl⟩

theorem dialog_away (self : MessageDialog) (w : World) :
    wp (self.showModal ui) (fun _ w' => Away ui w w') (fun _ w' => Away ui w w') w :=
  wp_mono (MessageDialog.showModal_spec ui self w) (fun _ _ h => AppStep.of_quiet h.quiet)
    fun _ _ h => AppStep.of_quiet h

/-! ## The detail view -/

/-- The view shows exactly one frame, the one `drawOps` gives. -/
theorem Detail.draw_spec (ui : Ui) (self : Detail) (w : World) {E : Halt PyError → World → Prop} :
    wp (self.draw ui)
      (fun _ w' => Logged [.detail self.title self.messageId (self.drawOps ui)] w w') E w := by
  have hbar : ∀ op ∈ SoftKeyBar.app.drawOps ui (some "Options".toList), ¬ op.clears := by
    simp [SoftKeyBar.drawOps, SoftKeyBar.app, DrawOp.clears, fillBox, drawText]
  have hmeta : ∀ lines y, ∀ op ∈ metaOps y lines, ¬ op.clears := by
    intro lines
    induction lines with
    | nil => simp [metaOps]
    | cons line lines ih =>
      intro y op hop
      rcases List.mem_cons.mp hop with rfl | hop
      · exact id
      · exact ih _ op hop
  have hbody : ∀ lines y, ∀ op ∈ bodyOps y lines, ¬ op.clears := by
    intro lines
    induction lines with
    | nil => simp [bodyOps]
    | cons line lines ih =>
      intro y op hop
      rw [bodyOps] at hop
      split at hop
      · cases hop
      · rcases List.mem_cons.mp hop with rfl | hop
        · exact id
        · exact ih _ op hop
  have hframe : ∀ f : Frame, (self.drawOps ui).foldl Frame.draw f = self.drawOps ui := by
    intro f
    simp only [drawOps, titleOps, headerOps, List.cons_append, List.nil_append, List.append_assoc]
    refine Frame.foldl_draw_cleared f "black" ?_
    intro op hop
    simp only [List.mem_cons, List.mem_append] at hop
    rcases hop with rfl | rfl | rfl | hop | hop | hop
    · exact id
    · exact id
    · exact id
    · exact hmeta _ _ op hop
    · exact hbody _ _ op hop
    · exact hbar op hop
  refine ⟨{ w.io with canvas := self.drawOps ui, screen := self.drawOps ui }, le_rfl, ?_⟩
  show World.journal (World.withIo w _) _ = _
  simp only [hframe]
  rfl

/-- The view was opened on a row of its mailbox. -/
def Detail.Good (self : Detail) (d : Db) : Prop :=
  (∃ t root i row, d.inbox = some t ∧ row ∈ t.rows ∧ self = inboxDetail root i row) ∨
  ∃ t root i row, d.outbox = some t ∧ row ∈ t.rows ∧ self = outboxDetail root i row

theorem Detail.Good.title {self : Detail} {d : Db} (h : self.Good d) :
    self.title = "Inbox".toList ∨ self.title = "Outbox".toList := by
  rcases h with ⟨t, root, i, row, -, -, rfl⟩ | ⟨t, root, i, row, -, -, rfl⟩
  · exact Or.inl rfl
  · exact Or.inr rfl

/-- The inbox message the view shows. -/
def Detail.inboxId (self : Detail) : Option ℤ :=
  if self.title = "Inbox".toList then self.messageId else none

theorem outbox_ne_inbox : "Outbox".toList ≠ "Inbox".toList := by decide +kernel

/-- A frame of the view is a visit, and then the view is open. -/
theorem Detail.Good.frame {self : Detail} {d : Db} {j : List Event} {frame : Frame}
    (h : self.Good d) (hj : viewed j = none ∨ viewed j = self.inboxId) :
    Visit d.inbox j (.detail self.title self.messageId frame) d.inbox ∧
      viewed (j ++ [.detail self.title self.messageId frame]) = self.inboxId := by
  rw [viewed_snoc]
  rcases h with ⟨t, root, i, row, ht, hmem, rfl⟩ | ⟨t, root, i, row, -, -, rfl⟩
  · rw [ht]
    exact ⟨.frame hj hmem, by simp [viewedAfter, Detail.inboxId, inboxDetail]⟩
  · have hid : (outboxDetail root i row).inboxId = none := if_neg outbox_ne_inbox
    have haway : concernsInbox (.detail (outboxDetail root i row).title
        (outboxDetail root i row).messageId frame) = false := decide_eq_false outbox_ne_inbox
    rw [hid] at hj ⊢
    rw [viewedAfter_of_not haway]
    exact ⟨.away haway, hj.elim id id⟩

theorem deleteInbox_walk {t : AutoTable InboxMessage} {row : ℤ × InboxMessage} {w : World}
    {l : List Event} {root : Text} {i : Nat} (ht : w.db.inbox = some t) (hmem : row ∈ t.rows)
    (hlog : w.log = l ++ [.detail "Inbox".toList (some row.1) ((inboxDetail root i row).drawOps ui),
      .chose "Options".toList Detail.inboxOptions 0]) (hview : Viewing l₀ (some row.1) w)
    {E : Halt PyError → World → Prop} :
    wp (deleteInboxMessage row.1) (fun _ w' => Walk ui l₀ w w' ∧ Viewing l₀ none w') E w := by
  unfold deleteInboxMessage
  rw [wp_bind, wp_get, ht]
  refine wp_mono (execute_spec _ w) ?_ fun _ _ h => h
  rintro _ _ rfl
  have hnone : Viewing l₀ (viewedAfter (some row.1) (.sql (.deleteInbox row.1)))
      ((w.withDb (Stmt.run w.db (.deleteInbox row.1))).journal [.sql (.deleteInbox row.1)]) :=
    hview.entry rfl
  refine ⟨AppStep.of_execute ⟨?_, ?_⟩, hnone⟩
  · simp only [hlog, mail, Stmt.run, ht, Option.map_some]
    exact .eraseInbox hmem (AutoTable.delete_rows hmem)
  · obtain ⟨j, hj, hview⟩ := hview
    refine Visit.of_run hj ?_
    simp only [mail, Stmt.run, ht, Option.map_some]
    exact .erase hview

theorem deleteOutbox_away {t : AutoTable OutboxMessage} {row : ℤ × OutboxMessage} {w : World}
    {l : List Event} {root : Text} {i : Nat} (ht : w.db.outbox = some t) (hmem : row ∈ t.rows)
    (hlog : w.log = l ++ [.detail "Outbox".toList (some row.1) ((outboxDetail root i row).drawOps ui),
      .chose "Options".toList Detail.outboxOptions 0]) {E : Halt PyError → World → Prop} :
    wp (deleteOutboxMessage row.1) (fun _ w' => Away ui w w') E w := by
  unfold deleteOutboxMessage
  rw [wp_bind, wp_get, ht]
  apply AppStep.execute_step
  refine ⟨?_, rfl, rfl⟩
  simp only [hlog, mail, Stmt.run, ht, Option.map_some]
  exact .eraseOutbox hmem (AutoTable.delete_rows hmem)

/-- What the options of a view do to the run: the message was erased and no view is open, or the view
is still open on its row. -/
def Chosen (ui : Ui) (l₀ : List Event) (o : Option ℤ) (w : World) (erased : Bool) (w' : World) :
    Prop :=
  Walk ui l₀ w w' ∧ match erased with
    | true => Viewing l₀ none w'
    | false => Viewing l₀ o w' ∧ w'.db = w.db

/-- A deletion, then its notice. -/
theorem erased_walk {delete : UI Unit} {o : Option ℤ} {w₀ w : World} (h₀ : Walk ui l₀ w₀ w)
    (hdelete : wp delete (fun _ w' => Walk ui l₀ w w' ∧ Viewing l₀ none w')
      (fun _ w' => Walk ui l₀ w₀ w') w) :
    wp (do
        delete
        let _ ← MessageDialog.showModal ui { message := "Erased!".toList }
        pure true)
      (fun r w' => Chosen ui l₀ o w₀ r w') (fun _ w' => Walk ui l₀ w₀ w') w := by
  refine wp_seq hdelete (fun _ _ h => h) ?_
  rintro _ w' ⟨h, hview⟩
  refine wp_seq (dialog_away _ w') (fun _ _ h' => (h₀.trans h).trans h'.walk) ?_
  intro _ w'' h'
  exact ⟨(h₀.trans h).trans h'.walk, hview.away h'⟩

/-- The options of the view: only Erase writes, and it deletes the row shown. -/
theorem inboxChoice_walk (t : AutoTable InboxMessage) (root : Text) (i : Nat)
    (row : ℤ × InboxMessage) (w : World) {l : List Event} (ht : w.db.inbox = some t)
    (hmem : row ∈ t.rows) (hlog : w.log =
      l ++ [.detail "Inbox".toList (some row.1) ((inboxDetail root i row).drawOps ui)])
    (hview : Viewing l₀ (some row.1) w) :
    wp ((inboxDetail root i row).inboxChoice ui)
      (fun r w' => Chosen ui l₀ (some row.1) w r w') (fun _ w' => Walk ui l₀ w w') w := by
  unfold Detail.inboxChoice
  refine wp_seq (VerticalList.showModal_logged ui _ w) (fun _ _ h => AppStep.of_quiet h.2) ?_
  rintro ⟨sel, list'⟩ w₁ ⟨h, -, -⟩
  have h₁ : Away ui w w₁ := closed_away _ h
  have hview₁ : Viewing l₀ (some row.1) w₁ := hview.away h₁
  match sel with
  | none => exact ⟨h₁.walk, hview₁, h.db⟩
  | some 0 =>
    have hdb : w₁.db.inbox = some t := by rw [h.db]; exact ht
    have hlog₁ := h.log
    rw [hlog, List.append_assoc] at hlog₁
    exact erased_walk h₁.walk (deleteInbox_walk hdb hmem hlog₁ hview₁)
  | some (n + 1) => exact ⟨h₁.walk, hview₁, h.db⟩

theorem outboxChoice_walk (t : AutoTable OutboxMessage) (root : Text) (i : Nat)
    (row : ℤ × OutboxMessage) (w : World) {l : List Event} (ht : w.db.outbox = some t)
    (hmem : row ∈ t.rows) (hlog : w.log =
      l ++ [.detail "Outbox".toList (some row.1) ((outboxDetail root i row).drawOps ui)])
    (hview : Viewing l₀ none w) :
    wp ((outboxDetail root i row).outboxChoice ui)
      (fun r w' => Chosen ui l₀ none w r w') (fun _ w' => Walk ui l₀ w w') w := by
  unfold Detail.outboxChoice
  refine wp_seq (VerticalList.showModal_logged ui _ w) (fun _ _ h => AppStep.of_quiet h.2) ?_
  rintro ⟨sel, list'⟩ w₁ ⟨h, -, -⟩
  have h₁ : Away ui w w₁ := closed_away _ h
  have hview₁ : Viewing l₀ none w₁ := hview.away h₁
  match sel with
  | none => exact ⟨h₁.walk, hview₁, h.db⟩
  | some 0 =>
    have hdb : w₁.db.outbox = some t := by rw [h.db]; exact ht
    have hlog₁ := h.log
    rw [hlog, List.append_assoc] at hlog₁
    refine erased_walk h₁.walk (wp_mono (deleteOutbox_away hdb hmem hlog₁) ?_ fun _ _ h => h)
    exact fun _ _ h => ⟨h.walk, hview₁.away h⟩
  | some 1 =>
    refine wp_seq (MessageDialog.showModal_spec ui _ w₁)
      (fun _ _ hq => h₁.walk.trans (AppStep.of_quiet hq)) fun _ w₂ hr => ?_
    refine ⟨h₁.walk.trans (AppStep.of_quiet hr.quiet), hview₁.quiet hr.quiet, ?_⟩
    rw [hr.quiet.logged.db, h.db]
  | some (n + 2) => exact ⟨h₁.walk, hview₁, h.db⟩

/-- A view was left: no inbox message is open, or a frame of one is the last entry. -/
def Left (l₀ : List Event) (self : Detail) (w : World) : Prop :=
  Viewing l₀ none w ∨ self.title = "Inbox".toList ∧
    ∃ j frame, w.log = l₀ ++ (j ++ [.detail "Inbox".toList self.messageId frame])

theorem Detail.showModal_walk (ui : Ui) (self : Detail) (w : World) (hgood : self.Good w.db)
    (hview : Viewing l₀ none w) :
    wp (self.showModal ui) (fun _ w' => Walk ui l₀ w w' ∧ Left l₀ self w')
      (fun _ w' => Walk ui l₀ w w') w := by
  -- before every frame: no view is open, or this one
  refine wp_mono (AppStep.of_loop (fun _ => True) (fun _ w' => Left l₀ self w')
    (fun _ w' => self.Good w'.db ∧ (Viewing l₀ none w' ∨ Viewing l₀ self.inboxId w'))
    ?_ ⟨hgood, Or.inl hview⟩) (fun _ _ h => h) fun _ _ h => h.2
  rintro - w ⟨hgood, hopen⟩
  unfold Detail.showBody
  refine wp_seq (Detail.draw_spec ui self w) (fun _ _ h => h) ?_
  intro _ w₁ h₁
  obtain ⟨j, hj, hviewed⟩ : ∃ j, w.log = l₀ ++ j ∧ (viewed j = none ∨ viewed j = self.inboxId) := by
    rcases hopen with ⟨j, hj, h⟩ | ⟨j, hj, h⟩
    · exact ⟨j, hj, Or.inl h⟩
    · exact ⟨j, hj, Or.inr h⟩
  obtain ⟨hvisit, hviewed₁⟩ := hgood.frame hviewed
  have hs₁ : Walk ui l₀ w w₁ := AppStep.of_entry ⟨.plain rfl, Visit.of_run hj hvisit⟩ h₁
  refine wp_seq (waitForKey_spec w₁) (fun _ _ h => ⟨trivial, hs₁.trans (AppStep.of_quiet h.2.2)⟩) ?_
  rintro key w₂ ⟨hr, -⟩
  have h₂ := h₁.trans_quiet hr.quiet
  have hs₂ : Walk ui l₀ w w₂ := hs₁.trans (AppStep.of_quiet hr.quiet)
  have hlog₂ := h₂.log
  rw [hj, List.append_assoc] at hlog₂
  have hview₂ : Viewing l₀ self.inboxId w₂ := ⟨_, hlog₂, hviewed₁⟩
  have hlt : w₂.io.input.length < w.io.input.length := by
    exact lt_of_lt_of_le hr.remaining h₁.input
  -- an iteration that goes on: nothing was deleted
  have again : ∀ w₃, Walk ui l₀ w₂ w₃ → Viewing l₀ self.inboxId w₃ ∧ w₃.db = w₂.db →
      Walk ui l₀ w w₃ ∧ (self.Good w₃.db ∧ (Viewing l₀ none w₃ ∨ Viewing l₀ self.inboxId w₃)) ∧
        w₃.io.input.length < w.io.input.length := by
    rintro w₃ hs ⟨hview, hdb⟩
    refine ⟨hs₂.trans hs, ⟨?_, Or.inr hview⟩, lt_of_le_of_lt hs.input hlt⟩
    rw [hdb, h₂.db]
    exact hgood
  have choice : ∀ {p : UI Bool}, wp p (fun r w' => Chosen ui l₀ self.inboxId w₂ r w')
      (fun _ w' => Walk ui l₀ w₂ w') w₂ →
      wp (do if ← p then pure (.inr true) else pure (.inl ()) : UI (Unit ⊕ Bool))
        (fun r w' => Walk ui l₀ w w' ∧ r.elim
          (fun _ => (self.Good w'.db ∧ (Viewing l₀ none w' ∨ Viewing l₀ self.inboxId w')) ∧
            w'.io.input.length < w.io.input.length) (fun _ => Left l₀ self w'))
        (fun _ w' => True ∧ Walk ui l₀ w w') w₂ := by
    intro p hp
    refine wp_seq hp (fun _ _ h => ⟨trivial, hs₂.trans h⟩) ?_
    rintro r w₃ ⟨hs, hr⟩
    cases r with
    | true => exact ⟨hs₂.trans hs, Or.inl hr⟩
    | false => exact again w₃ hs hr
  split
  · refine ⟨hs₂, ?_⟩
    rcases hgood.title with htitle | htitle
    · rw [htitle] at hlog₂
      exact Or.inr ⟨htitle, j, _, hlog₂⟩
    · have hnone : self.inboxId = none := if_neg (htitle ▸ outbox_ne_inbox)
      rw [hnone] at hview₂
      exact Or.inl hview₂
  · split
    · rcases hgood with ⟨t, root, i, row, ht, hmem, rfl⟩ | ⟨t, root, i, row, ht, hmem, rfl⟩
      · refine choice (inboxChoice_walk t root i row w₂ ?_ hmem h₂.log hview₂)
        rw [h₂.db]
        exact ht
      · refine choice (outboxChoice_walk t root i row w₂ ?_ hmem h₂.log hview₂)
        rw [h₂.db]
        exact ht
    · exact again w₂ (AppStep.refl w₂) ⟨hview₂, rfl⟩

/-! ## The lists -/

theorem showEmptyState_spec (ui : Ui) (title root : Text) (subIndex : Option Nat) (message : Text)
    (w : World) : wp (showEmptyState ui title root subIndex message) (fun _ w' => Reads w w')
      (fun _ w' => Quiet w w') w := by
  unfold showEmptyState
  refine wp_seq (paint_spec _ w) (fun _ _ h => h) ?_
  intro _ w₁ h₁
  refine wp_seq (SoftKeyBar.update_spec ui _ _ _ w₁) (fun _ _ h => h) ?_
  intro _ w₂ h₂
  refine wp_seq (present_spec w₂) (fun _ _ h => h) ?_
  intro _ w₃ h₃
  have hq := ((h₁.trans h₂).trans h₃).quiet
  refine wp_mono (reads_loop (fun _ w => ?_) () w₃) (fun _ _ h => hq.trans_reads h)
    fun _ _ h => hq.trans h
  unfold emptyStateBody
  refine wp_seq (waitForKey_spec w) (fun _ _ h => h.2.2) ?_
  rintro key w' ⟨hr, -⟩
  split <;> exact hr

theorem mem_byTimestamp {ρ : Type} {timestamp : ρ → ℤ} {t : Option (AutoTable ρ)} {row : ℤ × ρ}
    (h : row ∈ byTimestamp timestamp t) : ∃ t', t = some t' ∧ row ∈ t'.rows := by
  cases t with
  | none => cases h
  | some t => exact ⟨t, rfl, by rwa [byTimestamp, List.mem_insertionSort] at h⟩

/-- A mailbox: it is listed, and rows of it are shown.  `J` holds before every listing. -/
theorem mailbox_walk {ρ : Type} (ui : Ui) (title root : Text) (fetch : UI (List (ℤ × ρ)))
    (item : ℤ × ρ → Text) (detail : Nat → ℤ × ρ → Detail) (J : World → Prop)
    (hfetch : ∀ w, J w → wp fetch (fun rows w' => Walk ui l₀ w w' ∧ Viewing l₀ none w' ∧
      ∀ i, ∀ row ∈ rows, (detail i row).Good w'.db) (fun _ _ => False) w)
    (hleft : ∀ i row w, Left l₀ (detail i row) w → J w) (w : World) (hJ : J w) :
    wp (loop (mailboxBody ui title root fetch item detail) ())
      (fun _ w' => Walk ui l₀ w w' ∧ Viewing l₀ none w') (fun _ w' => Walk ui l₀ w w') w := by
  refine wp_mono (AppStep.of_loop (fun _ => True) (fun _ w' => Viewing l₀ none w')
    (fun _ w' => J w') (fun _ w hJ => ?_) hJ) (fun _ _ h => h) fun _ _ h => h.2
  unfold mailboxBody
  refine wp_seq (hfetch w hJ) (fun _ _ h => h.elim) ?_
  rintro rows w₁ ⟨h₁, hview₁, hgood⟩
  by_cases hnil : rows = []
  · rw [if_pos hnil]
    refine wp_seq (showEmptyState_spec ui _ _ _ _ w₁)
      (fun _ _ h => ⟨trivial, h₁.trans (AppStep.of_quiet h)⟩) fun _ w₂ h₂ => ?_
    exact ⟨h₁.trans (AppStep.of_quiet h₂.quiet), hview₁.quiet h₂.quiet⟩
  rw [if_neg hnil]
  refine wp_seq (SoftKeyBar.update_spec ui _ _ _ w₁) (fun _ _ h => h) ?_
  intro _ w₂ hd
  have h₂ : Walk ui l₀ w w₂ := h₁.trans (AppStep.of_quiet hd.quiet)
  refine wp_seq (VerticalList.showModal_logged ui _ w₂)
    (fun _ _ h => ⟨trivial, h₂.trans (AppStep.of_quiet h.2)⟩) ?_
  rintro ⟨sel, list'⟩ w₃ ⟨hlog, -, hlt⟩
  have h₂₃ : Away ui w₂ w₃ := closed_away _ hlog
  have h₃ : Walk ui l₀ w w₃ := h₂.trans h₂₃.walk
  have hview₃ : Viewing l₀ none w₃ := (hview₁.quiet hd.quiet).away h₂₃
  cases sel with
  | none => exact ⟨h₃, hview₃⟩
  | some i =>
    simp only []
    refine wp_seq (attempt_spec _ w₃) ?_ ?_
    · rintro _ _ ⟨_, -, rfl⟩
      exact ⟨trivial, h₃⟩
    rintro row w' ⟨hrow, hw'⟩
    rw [hw']
    have hmem : row ∈ rows := by
      unfold messageAt at hrow
      split at hrow
      · next heq => cases hrow; exact List.mem_of_getElem? heq
      · cases hrow
    have hdb₃ : w₃.db = w₁.db := by rw [hlog.db, hd.quiet.logged.db]
    refine wp_seq (Detail.showModal_walk ui _ w₃ (by rw [hdb₃]; exact hgood i row hmem) hview₃)
      (fun _ _ h => ⟨trivial, h₃.trans h⟩) ?_
    rintro _ w₄ ⟨h₄, hleft₄⟩
    refine ⟨h₃.trans h₄, hleft i row w₄ hleft₄, ?_⟩
    exact lt_of_le_of_lt h₄.input (lt_of_lt_of_le hlt h₂.input)

theorem fetchInbox_spec (w : World) {E : Halt PyError → World → Prop} :
    wp fetchInboxMessages (fun rows w' => rows = inboxRows w.db.inbox ∧
      w' = w.journal [.fetchedInbox rows]) E w := ⟨rfl, rfl⟩

theorem fetchOutbox_spec (w : World) {E : Halt PyError → World → Prop} :
    wp fetchOutboxMessages (fun rows w' => rows = outboxRows w.db.outbox ∧
      w' = w.journal [.fetchedOutbox rows]) E w := ⟨rfl, rfl⟩

theorem showInbox_walk (ui : Ui) (w : World) (hview : Viewing l₀ none w) :
    wp (showInbox ui) (fun _ w' => Walk ui l₀ w w' ∧ Viewing l₀ none w')
      (fun _ w' => Walk ui l₀ w w') w := by
  -- before every listing: no view is open, or one was left from a frame of it
  refine mailbox_walk ui _ _ _ _ _
    (fun w => ∃ j, w.log = l₀ ++ j ∧ (viewed j = none ∨
      ∃ j' id frame, j = j' ++ [.detail "Inbox".toList (some id) frame]))
    (fun w hJ => wp_mono (fetchInbox_spec w) ?_ fun _ _ h => h) ?_ w ?_
  · rintro _ _ ⟨rfl, rfl⟩
    obtain ⟨j, hj, hlist⟩ := hJ
    have hchange : Change ui (mail w.db) w.log (.fetchedInbox (inboxRows w.db.inbox)) (mail w.db) :=
      .screen rfl (by simp [mail]) (by simp)
    refine ⟨AppStep.of_entry ⟨hchange, Visit.of_run hj (.list hlist)⟩
      (Logged.single (Quiet.refl w) _), ⟨j ++ [.fetchedInbox (inboxRows w.db.inbox)], ?_, ?_⟩, ?_⟩
    · rw [World.journal_log, hj, List.append_assoc]
    · exact viewed_snoc _ _
    · intro i row hrow
      obtain ⟨t, ht, hmem⟩ := mem_byTimestamp hrow
      exact Or.inl ⟨t, _, i, row, ht, hmem, rfl⟩
  · rintro i row w' (⟨j, hj, hnone⟩ | ⟨-, j, frame, hj⟩)
    · exact ⟨j, hj, Or.inl hnone⟩
    · exact ⟨_, hj, Or.inr ⟨j, row.1, frame, rfl⟩⟩
  · obtain ⟨j, hj, hnone⟩ := hview
    exact ⟨j, hj, Or.inl hnone⟩

theorem showOutbox_walk (ui : Ui) (w : World) (hview : Viewing l₀ none w) :
    wp (showOutbox ui) (fun _ w' => Walk ui l₀ w w' ∧ Viewing l₀ none w')
      (fun _ w' => Walk ui l₀ w w') w := by
  refine mailbox_walk ui _ _ _ _ _ (Viewing l₀ none)
    (fun w hJ => wp_mono (fetchOutbox_spec w) ?_ fun _ _ h => h) ?_ w hview
  · rintro _ _ ⟨rfl, rfl⟩
    have haway : Away ui w (w.journal [.fetchedOutbox (outboxRows w.db.outbox)]) :=
      AppStep.of_entry ⟨.screen rfl (by simp) (by simp [mail]), rfl, rfl⟩
        (Logged.single (Quiet.refl w) _)
    refine ⟨haway.walk, hJ.away haway, ?_⟩
    intro i row hrow
    obtain ⟨t, ht, hmem⟩ := mem_byTimestamp hrow
    exact Or.inr ⟨t, _, i, row, ht, hmem, rfl⟩
  · rintro i row w' (hnone | ⟨htitle, -⟩)
    · exact hnone
    · exact absurd htitle outbox_ne_inbox

/-! ## The composer -/

/-- The composer is on the screen: the last entry shows its text. -/
def Shown (self : Composer) (w : World) : Prop :=
  self.widget.title = "Write".toList ∧
    ∃ l, w.log = l ++ [.editing "Write".toList self.widget.text]

theorem Composer.draw_away (ui : Ui) (self : Composer) (w : World)
    (htitle : self.widget.title = "Write".toList) :
    wp (self.draw ui) (fun _ w' => Away ui w w' ∧ Shown self w') (fun _ w' => Away ui w w') w := by
  refine wp_mono (Composer.draw_spec ui self w) ?_ fun _ _ h => AppStep.of_quiet h.2.quiet
  rintro _ w' ⟨h, -⟩
  refine ⟨away_of_logged (by simp [isPlain, concernsInbox]) h, htitle, w.log, ?_⟩
  rw [h.log, htitle]

theorem Composer.blink_away (ui : Ui) (self : Composer) (w : World) (h : Shown self w) :
    wp (self.blink ui) (fun self' w' => Away ui w w' ∧ self'.widget = self.widget ∧ Shown self' w')
      (fun _ w' => Away ui w w') w := by
  refine wp_mono (Composer.blink_spec ui self w) ?_ fun _ _ h => AppStep.of_quiet h.2.quiet
  rintro self' w' ⟨hwidget, -, hblink⟩
  unfold Shown at h ⊢
  rw [hwidget]
  rcases hblink with rfl | hblink
  · exact ⟨AppStep.refl _, rfl, h⟩
  · exact ⟨away_of_logged (by simp [isPlain, concernsInbox]) hblink, rfl, h.1, w.log, by rw [hblink.log, h.1]⟩

/-- Save writes the text on the screen. -/
theorem Composer.options_away (ui : Ui) (self : Composer) (w : World) (hshown : Shown self w) :
    wp (self.options ui) (fun _ w' => Away ui w w') (fun _ w' => Away ui w w') w := by
  obtain ⟨-, l, hl⟩ := hshown
  unfold Composer.options
  refine wp_seq (VerticalList.showModal_logged ui _ w) (fun _ _ h => AppStep.of_quiet h.2) ?_
  rintro ⟨sel, list'⟩ w₁ ⟨h, -, -⟩
  have h₁ : Away ui w w₁ := closed_away _ h
  match sel with
  | none => exact h₁
  | some 0 => exact wp_seq (dialog_away _ w₁) (fun _ _ h => h₁.trans h) fun _ _ h => h₁.trans h
  | some 1 =>
    have hsave : wp (saveOutboxMessage self.widget.text) (fun _ w' => Away ui w₁ w')
        (fun _ w' => Away ui w w') w₁ := by
      refine wp_seq (now_spec w₁) (fun _ _ h => h) ?_
      rintro t _ ⟨-, rfl⟩
      apply AppStep.execute_step
      rw [h.log, hl, List.append_assoc]
      exact ⟨.save (fun r hr => Int.lt_add_one_of_le (AutoTable.le_seq _ r hr)) rfl, rfl, rfl⟩
    refine wp_seq hsave (fun _ _ h => h) ?_
    intro _ w₂ h₂
    exact wp_seq (dialog_away _ w₂) (fun _ _ h => (h₁.trans h₂).trans h)
      fun _ _ h => (h₁.trans h₂).trans h
  | some (n + 2) => exact h₁

theorem handleKey_title (self : TextInputLong) (t : ℚ) (key : Nat) :
    (self.handleKey t key).1.title = self.title := by
  unfold TextInputLong.handleKey TextInputLong.dropBeforeCursor TextInputLong.clearText
  grind

theorem showWriteMessage_away (ui : Ui) (w : World) :
    wp (showWriteMessage ui) (fun _ w' => Away ui w w') (fun _ w' => Away ui w w') w := by
  unfold showWriteMessage
  refine wp_seq (now_spec w) (fun _ _ h => h) ?_
  rintro t _ ⟨-, rfl⟩
  refine wp_seq (Composer.draw_away ui _ _ rfl) (fun _ _ h => h) ?_
  rintro _ w₁ ⟨h₁, hshown⟩
  refine wp_mono (AppStep.of_loop (fun _ => True) (fun _ _ => True) Shown
    (fun self w hshown => ?_) hshown) (fun _ _ h => h₁.trans h.1) fun _ _ h => h₁.trans h.2
  unfold composerBody
  refine wp_seq (Composer.blink_away ui self w hshown) (fun _ _ h => ⟨trivial, h⟩) ?_
  rintro self' w₁ ⟨h₁, -, hshown₁⟩
  refine wp_seq (waitForKey_spec w₁) (fun _ _ h => ⟨trivial, h₁.trans (AppStep.of_quiet h.2.2)⟩) ?_
  rintro key w₂ ⟨hr, -⟩
  have h₂ : Away ui w w₂ := h₁.trans (AppStep.of_quiet hr.quiet)
  have hlt : w₂.io.input.length < w.io.input.length := by
    exact lt_of_lt_of_le hr.remaining h₁.input
  have hshown₂ : Shown self' w₂ := by
    obtain ⟨htitle, l, hl⟩ := hshown₁
    refine ⟨htitle, l, ?_⟩
    rw [hr.quiet.logged.log, hl, List.append_nil]
  -- the rest of the iteration draws the composer again
  have again : ∀ (c : Composer) w₃, c.widget.title = "Write".toList → Away ui w₂ w₃ →
      wp (do c.draw ui; pure (.inl c) : UI (Composer ⊕ Unit))
        (fun r w' => Away ui w w' ∧ r.elim
          (fun c' => Shown c' w' ∧ w'.io.input.length < w.io.input.length) (fun _ => True))
        (fun _ w' => True ∧ Away ui w w') w₃ := by
    intro c w₃ htitle h₃
    refine wp_seq (Composer.draw_away ui c w₃ htitle)
      (fun _ _ h => ⟨trivial, (h₂.trans h₃).trans h⟩) ?_
    rintro _ w₄ ⟨h₄, hshown₄⟩
    exact ⟨(h₂.trans h₃).trans h₄, hshown₄, lt_of_le_of_lt (h₃.trans h₄).input hlt⟩
  split
  · refine wp_seq (Composer.options_away ui self' w₂ hshown₂)
      (fun _ _ h => ⟨trivial, h₂.trans h⟩) fun _ w₃ h₃ => ?_
    exact again self' w₃ hshown₂.1 h₃
  · refine wp_seq (now_spec w₂) (fun _ _ h => h) ?_
    rintro t w' ⟨-, hw'⟩
    rw [hw']
    simp only []
    split
    · exact ⟨h₂, trivial⟩
    · exact again _ w₂ ((handleKey_title _ _ _).trans hshown₂.1) (AppStep.refl w₂)

/-! ## Every run -/

theorem run_walk (ui : Ui) (w : World) (hview : Viewing l₀ none w) :
    wp (run ui) (fun _ w' => Walk ui l₀ w w') (fun _ w' => Walk ui l₀ w w') w := by
  refine wp_mono (AppStep.of_loop (fun _ => True) (fun _ _ => True)
    (fun _ w' => Viewing l₀ none w') (fun menu w hview => ?_) hview)
    (fun _ _ h => h.1) fun _ _ h => h.2
  unfold runBody
  refine wp_seq (PagedList.showModal_spec ui menu w)
    (fun _ _ h => ⟨trivial, AppStep.of_quiet h⟩) ?_
  rintro ⟨sel, menu'⟩ w₁ hr
  have h₁ : Walk ui l₀ w w₁ := AppStep.of_quiet hr.quiet
  have hview₁ : Viewing l₀ none w₁ := hview.quiet hr.quiet
  have hlt : w₁.io.input.length < w.io.input.length := by
    exact hr.remaining
  -- every entry runs its screen and comes back to the menu
  have back : ∀ {p : UI Unit}, wp p (fun _ w' => Walk ui l₀ w₁ w' ∧ Viewing l₀ none w')
      (fun _ w' => Walk ui l₀ w₁ w') w₁ →
      wp (do p; pure (.inl menu') : UI (PagedList ⊕ Unit)) (fun res w' => Walk ui l₀ w w' ∧ res.elim
        (fun _ => Viewing l₀ none w' ∧ w'.io.input.length < w.io.input.length) (fun _ => True))
        (fun _ w' => True ∧ Walk ui l₀ w w') w₁ := fun hp =>
    wp_seq hp (fun _ _ h => ⟨trivial, h₁.trans h⟩) fun _ _ h =>
      ⟨h₁.trans h.1, h.2, lt_of_le_of_lt h.1.input hlt⟩
  match sel with
  | none => exact ⟨h₁, trivial⟩
  | some 0 => exact back (showInbox_walk ui w₁ hview₁)
  | some 1 => exact back (showOutbox_walk ui w₁ hview₁)
  | some 2 =>
    exact back (wp_mono (showWriteMessage_away ui w₁) (fun _ _ h => ⟨h.walk, hview₁.away h⟩)
      fun _ _ h => h.walk)
  | some (n + 3) => exact ⟨h₁, hview₁, hlt⟩

/-- A run of the app, from its first entry. -/
theorem run_spec (ui : Ui) (w : World) :
    wp (run ui) (fun _ w' => Walk ui w.log w w') (fun _ w' => Walk ui w.log w w') w :=
  run_walk ui w ⟨[], (List.append_nil _).symm, rfl⟩

theorem run_step (ui : Ui) (w : World) :
    wp (run ui) (fun _ w' => Step ui w w') (fun _ w' => Step ui w w') w :=
  wp_mono (run_spec ui w) (fun _ _ h => h.mono fun _ _ _ _ h => h.1)
    fun _ _ h => h.mono fun _ _ _ _ h => h.1

/-- The id was given out, and names no row of the table any more. -/
def Gone {ρ : Type} (id : ℤ) (t : Option (AutoTable ρ)) : Prop := ∃ t', t = some t' ∧ t'.Retired id

theorem Gone.not_listed {ρ : Type} {timestamp : ρ → ℤ} {id : ℤ} {t : Option (AutoTable ρ)}
    (h : Gone id t) : ∀ r ∈ byTimestamp timestamp t, r.1 ≠ id := by
  intro r hr
  obtain ⟨t', rfl, hret⟩ := h
  obtain ⟨t'', heq, hmem⟩ := mem_byTimestamp hr
  cases heq
  exact hret.2 r hmem

/-- A message that is erased is gone. -/
theorem Change.gone_inbox {m m' : Mail} {l : List Event} {id : ℤ}
    (h : Change ui m l (.sql (.deleteInbox id)) m') : Gone id m'.inbox := by
  cases h with
  | screen h _ _ => cases h
  | eraseInbox hmem _ => exact ⟨_, rfl, AutoTable.retired_delete _ hmem⟩

theorem Change.gone_outbox {m m' : Mail} {l : List Event} {id : ℤ}
    (h : Change ui m l (.sql (.deleteOutbox id)) m') : Gone id m'.outbox := by
  cases h with
  | screen h _ _ => cases h
  | eraseOutbox hmem _ => exact ⟨_, rfl, AutoTable.retired_delete _ hmem⟩

/-- No change lists a message that is gone from the inbox, or brings it back. -/
theorem Change.inbox_gone {m m' : Mail} {l : List Event} {e : Event} {id : ℤ}
    (hgone : Gone id m.inbox) (h : Change ui m l e m') :
    (∀ rows, e = .fetchedInbox rows → ∀ r ∈ rows, r.1 ≠ id) ∧ Gone id m'.inbox := by
  cases h with
  | screen _ hinbox _ =>
    refine ⟨fun rows he => ?_, hgone⟩
    rw [hinbox rows he]
    exact hgone.not_listed
  | eraseInbox _ _ =>
    obtain ⟨t, heq, hret⟩ := hgone
    cases heq
    exact ⟨by simp, _, rfl, hret.delete _⟩
  | eraseOutbox _ _ => exact ⟨by simp, hgone⟩
  | save _ _ => exact ⟨by simp, hgone⟩

theorem Change.outbox_gone {m m' : Mail} {l : List Event} {e : Event} {id : ℤ}
    (hgone : Gone id m.outbox) (h : Change ui m l e m') :
    (∀ rows, e = .fetchedOutbox rows → ∀ r ∈ rows, r.1 ≠ id) ∧ Gone id m'.outbox := by
  cases h with
  | screen _ _ houtbox =>
    refine ⟨fun rows he => ?_, hgone⟩
    rw [houtbox rows he]
    exact hgone.not_listed
  | eraseInbox _ _ => exact ⟨by simp, hgone⟩
  | eraseOutbox _ _ =>
    obtain ⟨t, heq, hret⟩ := hgone
    cases heq
    exact ⟨by simp, _, rfl, hret.delete _⟩
  | save _ _ =>
    obtain ⟨t, rfl, hret⟩ := hgone
    exact ⟨by simp, _, rfl, hret.insert _⟩

/-- **The mailboxes change only as the user asks**, at every moment of every run, and a row that was
erased is in no later listing. -/
theorem mailboxes_change (ui : Ui) (w : World) :
    let w' := finalState (run ui) w
    History (Change ui) w.log ⟨w.db.inbox, w.db.outbox⟩ w'.log ⟨w'.db.inbox, w'.db.outbox⟩ ∧
    (∀ pre id post, w'.log = w.log ++ pre ++ .sql (.deleteInbox id) :: post →
      ∀ rows, .fetchedInbox rows ∈ post → ∀ r ∈ rows, r.1 ≠ id) ∧
    ∀ pre id post, w'.log = w.log ++ pre ++ .sql (.deleteOutbox id) :: post →
      ∀ rows, .fetchedOutbox rows ∈ post → ∀ r ∈ rows, r.1 ≠ id := by
  intro w'
  have hrun : History (Change ui) w.log (mail w.db) w'.log (mail w'.db) :=
    (finalState_of_wp (P := fun w' => Step ui w w') (run_step ui w)).history
  refine ⟨hrun, fun pre id post hlog rows hrows => ?_, fun pre id post hlog rows hrows => ?_⟩
  · have hlater := hrun.after (fun m => Gone id m.inbox)
      (fun e => ∀ rows, e = .fetchedInbox rows → ∀ r ∈ rows, r.1 ≠ id)
      (fun _ _ _ _ hg h => h.inbox_gone hg) hlog fun _ _ _ h => h.gone_inbox
    exact hlater _ hrows rows rfl
  · have hlater := hrun.after (fun m => Gone id m.outbox)
      (fun e => ∀ rows, e = .fetchedOutbox rows → ∀ r ∈ rows, r.1 ≠ id)
      (fun _ _ _ _ hg h => h.outbox_gone hg) hlog fun _ _ _ h => h.gone_outbox
    exact hlater _ hrows rows rfl

end

end Messages

end NeoDCT
