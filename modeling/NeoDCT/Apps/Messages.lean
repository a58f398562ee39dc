import NeoDCT.Framework.Lists
import NeoDCT.Framework.Inputs
import NeoDCT.Framework.Dialog

/-!
# The Messages app

`apps/Messages/main.py`: the inbox and the outbox, the detail view of a message, and the composer.
The detail view leaves a journal entry with the frame it shows, every time it shows one.
-/

namespace NeoDCT

open PyText Interactive

namespace Messages

/-! ## Wrapping -/

/-- `trimmed + "..." if trimmed else "..."`. -/
def cutWord (fits : Text → Bool) (word : Text) : Text :=
  let trimmed := PagedList.trimToFit fits word
  if trimmed ≠ [] then trimmed ++ "...".toList else "...".toList

/-- The loop of `_wrap_text`, from the line `current`. -/
def wrapLoop (fits : Text → Bool) : List Text → Text → List Text
  | [], current => if current ≠ [] then [current] else []
  | word :: words, current =>
    let candidate := if current ≠ [] then strip (current ++ [' '] ++ word) else word
    if fits candidate then wrapLoop fits words candidate
    else if current ≠ [] then current :: wrapLoop fits words word
    else cutWord fits word :: wrapLoop fits words []

/-- `_wrap_text`. -/
def wrapText (ui : Ui) (text : Text) (maxWidth : ℤ) (font : Font) : List Text :=
  let words := split text
  if words = [] then [[]]
  else wrapLoop (fun candidate => (ui.getTextSize candidate font).1 ≤ maxWidth) words []

/-- `_format_timestamp`. -/
def formatTimestamp (ui : Ui) (ts : Option ℤ) : Text :=
  match ts with
  | none => "Unknown time".toList
  | some ts => if ts = 0 then "Unknown time".toList else ui.strftime "%Y-%m-%d %H:%M" ts

/-! ## The tables -/

/-- The rows of a table, if its file is there, `ORDER BY timestamp DESC`; messages of one second
stay in rowid order. -/
def byTimestamp {ρ : Type} (timestamp : ρ → ℤ) (t : Option (AutoTable ρ)) : List (ℤ × ρ) :=
  match t with
  | none => []
  | some t => t.rows.insertionSort fun a b => timestamp b.2 ≤ timestamp a.2

def inboxRows (t : Option (AutoTable InboxMessage)) : List (ℤ × InboxMessage) :=
  byTimestamp InboxMessage.timestamp t

def outboxRows (t : Option (AutoTable OutboxMessage)) : List (ℤ × OutboxMessage) :=
  byTimestamp OutboxMessage.timestamp t

/-- `_fetch_inbox_messages`. -/
def fetchInboxMessages : UI (List (ℤ × InboxMessage)) := do
  let w ← get
  record (.fetchedInbox (inboxRows w.db.inbox))
  pure (inboxRows w.db.inbox)

/-- `_fetch_outbox_messages`. -/
def fetchOutboxMessages : UI (List (ℤ × OutboxMessage)) := do
  let w ← get
  record (.fetchedOutbox (outboxRows w.db.outbox))
  pure (outboxRows w.db.outbox)

/-- `_delete_inbox_message`. -/
def deleteInboxMessage (messageId : ℤ) : UI Unit := do
  let w ← get
  if w.db.inbox.isNone then pure () else execute (.deleteInbox messageId)

/-- `_delete_outbox_message`. -/
def deleteOutboxMessage (messageId : ℤ) : UI Unit := do
  let w ← get
  if w.db.outbox.isNone then pure () else execute (.deleteOutbox messageId)

/-- `int(t)`. -/
def truncate (t : ℚ) : ℤ := t.num.tdiv t.den

/-- `_save_outbox_message`. -/
def saveOutboxMessage (text : Text) : UI Unit := do
  let t ← now
  execute (.insertOutbox text (truncate t))

/-! ## Screens -/

/-- The title, the line below it and the header. -/
def titleOps (ui : Ui) (title rootId : Text) (subIndex : Option Nat) : List DrawOp :=
  [fillBox 0 0 240 240 "black", drawText 5 5 title .xl "white",
    .line 0 35 240 35 (.named "white")] ++ headerOps ui rootId subIndex

def emptyStateBody (_ : Unit) : UI (Unit ⊕ Unit) := do
  let key ← waitForKey
  if key = 14 then pure (.inr ()) else pure (.inl ())

/-- `_show_empty_state`. -/
def showEmptyState (ui : Ui) (title rootId : Text) (subIndex : Option Nat) (message : Text) :
    UI Unit := do
  let w := (ui.getTextSize message .n).1
  paint (titleOps ui title rootId subIndex ++
    [drawText ((240 - w) / 2 : ℤ) 110 message .n "white"])
  SoftKeyBar.app.update ui (some "Back".toList) false
  present
  loop emptyStateBody ()

/-- What `_show_message_detail` is called with. -/
structure Detail where
  title : Text
  rootId : Text
  subIndex : Nat
  message : Text
  messageId : Option ℤ := none
  sender : Option Text := none
  timestamp : Option ℤ := none

namespace Detail

/-- `meta_lines`. -/
def metaLines (ui : Ui) (self : Detail) : List Text :=
  (match self.sender with
    | some (c :: cs) => ["From: ".toList ++ c :: cs]
    | _ => []) ++ ["Time: ".toList ++ formatTimestamp ui self.timestamp]

/-- `body_lines`. -/
def bodyLines (ui : Ui) (self : Detail) : List Text := wrapText ui self.message 220 .n

/-- The loop over `meta_lines`, from `y`. -/
def metaOps : ℚ → List Text → List DrawOp
  | _, [] => []
  | y, line :: lines => drawText 10 y line .s "gray" :: metaOps (y + 18) lines

/-- The loop over `body_lines`, from `y`: it stops below 210. -/
def bodyOps : ℚ → List Text → List DrawOp
  | _, [] => []
  | y, line :: lines =>
    if 210 < y then [] else drawText 10 y line .n "white" :: bodyOps (y + 22) lines

/-- Where the body starts. -/
def bodyTop (ui : Ui) (self : Detail) : ℚ := 45 + (self.metaLines ui).length * 18 + 4

/-- One frame of the detail view. -/
def drawOps (ui : Ui) (self : Detail) : List DrawOp :=
  titleOps ui self.title self.rootId (some self.subIndex) ++ metaOps 45 (self.metaLines ui) ++
    bodyOps (self.bodyTop ui) (self.bodyLines ui) ++
    SoftKeyBar.app.drawOps ui (some "Options".toList)

def draw (ui : Ui) (self : Detail) : UI Unit := do
  paint (self.drawOps ui)
  present
  let w ← get
  record (.detail self.title self.messageId w.io.screen)

def inboxOptions : List Text := ["Just Erase for now".toList]
def outboxOptions : List Text := ["Erase".toList, "Send".toList]

def optionsList (self : Detail) (items : List Text) : VerticalList :=
  { title := "Options".toList, items := items, appId := self.rootId }

def notYet : Text :=
  "This feature requires Telephony. Will hopefully be functional by M3".toList

/-- The options of an inbox message; `true` stands for `return "deleted"`. -/
def inboxChoice (ui : Ui) (self : Detail) : UI Bool := do
  let (selection, _) ← (self.optionsList inboxOptions).showModal ui
  match selection, self.messageId with
  | some 0, some messageId => do
    deleteInboxMessage messageId
    let _ ← MessageDialog.showModal ui { message := "Erased!".toList }
    pure true
  | _, _ => pure false

/-- The options of an outbox message. -/
def outboxChoice (ui : Ui) (self : Detail) : UI Bool := do
  let (selection, _) ← (self.optionsList outboxOptions).showModal ui
  match selection, self.messageId with
  | some 0, some messageId => do
    deleteOutboxMessage messageId
    let _ ← MessageDialog.showModal ui { message := "Erased!".toList }
    pure true
  | some 1, _ => do
    let _ ← MessageDialog.showModal ui { message := notYet }
    pure false
  | _, _ => pure false

/-- One iteration of `_show_message_detail`; it returns whether the message was deleted. -/
def showBody (ui : Ui) (self : Detail) (_ : Unit) : UI (Unit ⊕ Bool) := do
  self.draw ui
  let key ← waitForKey
  if key = 14 then pure (.inr false)
  else if key = 28 ∨ key = 96 then
    if self.title = "Inbox".toList then
      if ← self.inboxChoice ui then pure (.inr true) else pure (.inl ())
    else if self.title = "Outbox".toList then
      if ← self.outboxChoice ui then pure (.inr true) else pure (.inl ())
    else pure (.inl ())
  else pure (.inl ())

/-- `_show_message_detail`. -/
def showModal (ui : Ui) (self : Detail) : UI Bool := loop (self.showBody ui) ()

end Detail

/-- `messages[i]`. -/
def messageAt {ρ : Type} (messages : List (ℤ × ρ)) (i : Nat) : Except PyError (ℤ × ρ) :=
  match messages[i]? with
  | some m => .ok m
  | none => .error .indexError

/-- The detail view of row `i` of the inbox. -/
def inboxDetail (rootId : Text) (i : Nat) (row : ℤ × InboxMessage) : Detail where
  title := "Inbox".toList
  rootId := rootId
  subIndex := i + 1
  message := row.2.message
  messageId := some row.1
  sender := some row.2.sender
  timestamp := some row.2.timestamp

/-- The detail view of row `i` of the outbox. -/
def outboxDetail (rootId : Text) (i : Nat) (row : ℤ × OutboxMessage) : Detail where
  title := "Outbox".toList
  rootId := rootId
  subIndex := i + 1
  message := row.2.message
  messageId := some row.1
  timestamp := some row.2.timestamp

def inboxItem (row : ℤ × InboxMessage) : Text :=
  if row.2.isRead ≠ 0 then row.2.sender else "* ".toList ++ row.2.sender

/-- One iteration of `_show_inbox` and `_show_outbox`. -/
def mailboxBody {ρ : Type} (ui : Ui) (title headerRoot : Text) (fetch : UI (List (ℤ × ρ)))
    (item : ℤ × ρ → Text) (detail : Nat → ℤ × ρ → Detail) (_ : Unit) : UI (Unit ⊕ Unit) := do
  let messages ← fetch
  if messages = [] then
    showEmptyState ui title headerRoot none "No Messages".toList
    pure (.inr ())
  else
    let vList : VerticalList :=
      { title := title, items := messages.map item, appId := headerRoot }
    SoftKeyBar.app.update ui (some "Open".toList) false
    let (selection, _) ← vList.showModal ui
    match selection with
    | none => pure (.inr ())
    | some i => do
      let row ← attempt (messageAt messages i)
      let _ ← (detail i row).showModal ui
      pure (.inl ())

/-- `_show_inbox`. -/
def showInbox (ui : Ui) : UI Unit :=
  loop (mailboxBody ui "Inbox".toList "2-1".toList fetchInboxMessages inboxItem
    (inboxDetail "2-1".toList)) ()

/-- `_show_outbox`. -/
def showOutbox (ui : Ui) : UI Unit :=
  loop (mailboxBody ui "Outbox".toList "2-2".toList fetchOutboxMessages
    (fun row => row.2.message) (outboxDetail "2-2".toList)) ()

/-! ## The composer -/

def composerOptions : List Text := ["Send".toList, "Save".toList]

/-- `input_widget`, `cursor_on` and `last_blink`. -/
structure Composer where
  widget : TextInputLong
  cursorOn : Bool
  lastBlink : ℚ

/-- `input_widget.draw(cursor_on); softkey.update("Options")`. -/
def Composer.draw (ui : Ui) (self : Composer) : UI Unit := do
  self.widget.draw ui self.cursorOn
  SoftKeyBar.app.update ui (some "Options".toList) true

/-- The blink logic at the head of the loop. -/
def Composer.blink (ui : Ui) (self : Composer) : UI Composer := do
  let t ← now
  if 1 / 2 < t - self.lastBlink then
    let self := { self with cursorOn := !self.cursorOn, lastBlink := t }
    self.draw ui
    pure self
  else pure self

/-- The options of the composer. -/
def Composer.options (ui : Ui) (self : Composer) : UI Unit := do
  let list : VerticalList :=
    { title := "Options".toList, items := composerOptions, appId := "2-3".toList }
  let (selection, _) ← list.showModal ui
  match selection with
  | some 0 => do
    let _ ← MessageDialog.showModal ui { message := Detail.notYet }
  | some 1 => do
    saveOutboxMessage self.widget.text
    let _ ← MessageDialog.showModal ui { message := "Saved!".toList }
  | _ => pure ()

/-- One iteration of `_show_write_message`. -/
def composerBody (ui : Ui) (self : Composer) : UI (Composer ⊕ Unit) := do
  let self ← self.blink ui
  let key ← waitForKey
  if key = 28 ∨ key = 96 then
    self.options ui
    self.draw ui
    pure (.inl self)
  else
    let t ← now
    let (widget, result) := self.widget.handleKey t key
    if result = some .emptyBackspace then pure (.inr ())
    else
      let self := { self with widget := widget }
      self.draw ui
      pure (.inl self)

/-- `_show_write_message`. -/
def showWriteMessage (ui : Ui) : UI Unit := do
  let t ← now
  let self : Composer := { widget := { title := "Write".toList }, cursorOn := true, lastBlink := t }
  self.draw ui
  loop (composerBody ui) self

/-! ## The menu -/

/-- One iteration of `run`. -/
def runBody (ui : Ui) (menu : PagedList) : UI (PagedList ⊕ Unit) := do
  let (sel, menu) ← menu.showModal ui
  match sel with
  | none => pure (.inr ())
  | some 0 => do
    showInbox ui
    pure (.inl menu)
  | some 1 => do
    showOutbox ui
    pure (.inl menu)
  | some 2 => do
    showWriteMessage ui
    pure (.inl menu)
  | some _ => pure (.inl menu)

/-- `run`. -/
def run (ui : Ui) : UI Unit :=
  loop (runBody ui)
    { title := "Messages".toList
      items := ["Inbox".toList, "Outbox".toList, "Write Message".toList]
      rootId := "2".toList }

end Messages

end NeoDCT
