import NeoDCT.Input
import NeoDCT.Lib.Prog
import NeoDCT.Lib.AutoTable

/-!
# The `ui` object and the world its programs run in

`Ui` holds what stays fixed after boot: the metrics of the fonts, the images that exist, the
layout file.  `World` holds what changes: the keypad, the clock, the canvas, the home screen's
`state` and `dial_buffer`, the databases, and a journal `log` of what happened (screens closed by
the user, SQL statements, modem calls).  `UI α` is a program over `World`; the framework's widgets
and the apps are such programs.

A step of a program that only draws and reads keys changes nothing but `World.io` (`Quiet`).
-/

namespace NeoDCT

open PyText Interactive

/-! ## What is drawn -/

inductive Font where
  | s | md | n | xl
deriving DecidableEq, Repr

/-- A value of `json.load`. -/
inductive Json where
  | null
  | bool (b : Bool)
  | int (i : ℤ)
  | float (q : ℚ)
  | str (s : Text)
  | arr (xs : List Json)
  | obj (kvs : List (Text × Json))

/-- The `fill` or `outline` of a drawing call: a name in the source, or a value of the layout. -/
inductive Ink where
  | named (color : String)
  | layout (value : Json)

/-- A call on `ui.draw` or `ui.canvas`. -/
inductive DrawOp where
  | rectangle (x0 y0 x1 y1 : ℚ) (fill outline : Option Ink)
  | line (x0 y0 x1 y1 : ℚ) (fill : Ink)
  | text (x y : ℚ) (s : Text) (font : Option Font) (fill : Ink)
  | paste (image : Text) (x y : ℚ)

/-- `draw.rectangle(box, fill=color)`. -/
def fillBox (x0 y0 x1 y1 : ℚ) (color : String) : DrawOp :=
  .rectangle x0 y0 x1 y1 (some (.named color)) none

/-- `draw.text((x, y), s, font=font, fill=color)`. -/
def drawText (x y : ℚ) (s : Text) (font : Font) (color : String) : DrawOp :=
  .text x y s (some font) (.named color)

/-- What was drawn since the canvas was last cleared as a whole. -/
abbrev Frame := List DrawOp

/-- Clearing the whole canvas forgets what was drawn before. -/
def Frame.draw (f : Frame) (op : DrawOp) : Frame :=
  match op with
  | .rectangle x0 y0 x1 y1 (some _) _ =>
    if x0 = 0 ∧ y0 = 0 ∧ x1 = 240 ∧ y1 = 240 then [op] else f ++ [op]
  | _ => f ++ [op]

/-- Whether an operation paints over the whole canvas. -/
def DrawOp.clears : DrawOp → Prop
  | .rectangle x0 y0 x1 y1 (some _) _ => x0 = 0 ∧ y0 = 0 ∧ x1 = 240 ∧ y1 = 240
  | _ => False

theorem Frame.draw_of_not_clears (f : Frame) {op : DrawOp} (h : ¬ op.clears) :
    f.draw op = f ++ [op] := by
  unfold Frame.draw
  split
  · next x0 y0 x1 y1 _ _ => exact if_neg h
  · rfl

theorem Frame.foldl_draw (f : Frame) {ops : List DrawOp} (h : ∀ op ∈ ops, ¬ op.clears) :
    ops.foldl Frame.draw f = f ++ ops := by
  induction ops generalizing f with
  | nil => exact (List.append_nil f).symm
  | cons op ops ih =>
    rw [List.foldl_cons, f.draw_of_not_clears (h op List.mem_cons_self),
      ih _ fun o ho => h o (List.mem_cons_of_mem _ ho), List.append_assoc]
    rfl

/-- Drawing that begins with clearing the canvas leaves just that drawing. -/
theorem Frame.foldl_draw_cleared (f : Frame) (color : String) {ops : List DrawOp}
    (h : ∀ op ∈ ops, ¬ op.clears) :
    (fillBox 0 0 240 240 color :: ops).foldl Frame.draw f = fillBox 0 0 240 240 color :: ops := by
  rw [List.foldl_cons, Frame.foldl_draw _ h]
  simp [Frame.draw, fillBox]

/-! ## The databases -/

/-- A row of `contacts`, without its id. -/
structure Contact where
  name : Text
  number : Text
  speedDial : ℤ
deriving DecidableEq, Repr

/-- A row of `contacts` as `SELECT *` gives it. -/
abbrev ContactRow := ℤ × Contact

structure InboxMessage where
  message : Text
  sender : Text
  timestamp : ℤ
  isRead : ℤ
deriving DecidableEq, Repr

structure OutboxMessage where
  message : Text
  timestamp : ℤ
deriving DecidableEq, Repr

/-- `phonebook.db`, `sms_inbox.db` and `sms_outbox.db`; `none` when the file is not there. -/
structure Db where
  contacts : AutoTable Contact
  inbox : Option (AutoTable InboxMessage)
  outbox : Option (AutoTable OutboxMessage)
deriving DecidableEq

/-- The statements that write. -/
inductive Stmt where
  | insertContact (name number : Text) (speedDial : ℤ)
  | updateContact (name number : Text) (id : ℤ)
  | deleteContact (id : ℤ)
  | deleteInbox (id : ℤ)
  | deleteOutbox (id : ℤ)
  | insertOutbox (message : Text) (timestamp : ℤ)
deriving DecidableEq, Repr

/-- A statement's effect; `INSERT INTO outbox` runs after `CREATE TABLE IF NOT EXISTS`. -/
def Stmt.run (d : Db) : Stmt → Db
  | .insertContact name number sd => { d with contacts := d.contacts.insert ⟨name, number, sd⟩ }
  | .updateContact name number id =>
    { d with contacts := d.contacts.update id fun c => { c with name := name, number := number } }
  | .deleteContact id => { d with contacts := d.contacts.delete id }
  | .deleteInbox id => { d with inbox := d.inbox.map fun t => t.delete id }
  | .deleteOutbox id => { d with outbox := d.outbox.map fun t => t.delete id }
  | .insertOutbox message ts =>
    { d with outbox := some ((d.outbox.getD .empty).insert ⟨message, ts⟩) }

/-- `init_databases`, on the tables whose files exist. -/
def initDatabases (contacts : Option (AutoTable Contact)) (inbox : Option (AutoTable InboxMessage))
    (outbox : Option (AutoTable OutboxMessage)) : Db :=
  let table := contacts.getD .empty
  { contacts :=
      if table.rows = [] then table.insert ⟨"NeoDCT Support".toList, "555-1234".toList, 2⟩ else table
    inbox := some (inbox.getD .empty)
    outbox := some (outbox.getD .empty) }

/-! ## The journal -/

/-- A Python value where the source is not typed: what `modem.dial` and the call screen are given. -/
inductive PyVal where
  | str (s : Text)
  | int (i : ℤ)
  | row (r : ContactRow)
deriving DecidableEq, Repr

inductive PyError where
  | indexError | keyError | typeError | attributeError | zeroDivisionError | processLookupError
deriving DecidableEq, Repr

/-- `NeoDCT_UI.state`. -/
inductive UiState where
  | HOME | HOME_DIALING | MENU
deriving DecidableEq, Repr

inductive Event where
  /-- `handle_input(code)` is called in this state. -/
  | handleInput (code : Nat) (state : UiState) (dialBuffer : Text)
  | dial (number : PyVal)
  | hangup
  /-- The call screen is shown. -/
  | calling (number : PyVal)
  /-- A `VerticalList` returned an index. -/
  | chose (title : Text) (items : List Text) (index : Nat)
  /-- A `VerticalList` returned -1. -/
  | back (title : Text) (items : List Text)
  /-- A `TextInput` returned its text. -/
  | confirmed (title prompt text : Text)
  /-- A `TextInput` returned `None`. -/
  | cancelled (title prompt : Text)
  /-- A `TextInputLong` is on the screen with this text. -/
  | editing (title text : Text)
  /-- The detail view of a message is on the screen. -/
  | detail (title : Text) (messageId : Option ℤ) (frame : Frame)
  | fetchedContacts (query : Option Text) (rows : List ContactRow)
  | fetchedInbox (rows : List (ℤ × InboxMessage))
  | fetchedOutbox (rows : List (ℤ × OutboxMessage))
  | sql (stmt : Stmt)

/-- An entry about a screen: no write, and nothing of the modem or the home screen. -/
def Event.isScreen : Event → Bool
  | .handleInput _ _ _ | .dial _ | .hangup | .calling _ | .sql _ => false
  | _ => true

/-! ## The world -/

/-- An entry of `self.apps`. -/
structure AppEntry where
  name : Text
  icon : Text
  path : Text
  exec : Text
  id : ℤ
deriving DecidableEq, Repr

structure Ui where
  /-- `get_text_size`: width and height of a text in a font. -/
  getTextSize : Text → Font → ℤ × ℤ
  /-- `get_image`: width and height of the image at a path, if it can be opened. -/
  getImage : Text → Option (ℤ × ℤ)
  /-- `time.strftime(format, time.localtime(t))`. -/
  strftime : String → ℤ → Text
  /-- Whether Pillow accepts a layout value as `fill`. -/
  validInk : Json → Bool
  /-- Whether `wallpaper` was loaded. -/
  wallpaper : Bool
  /-- Whether the fonts were loaded: `font_md` exists only then. -/
  hasFontMd : Bool
  homeLayout : Option Json
  apps : List AppEntry

/-- A phone with a fixed-pitch font, no wallpaper, no apps and nothing on its home screen. -/
def Ui.plain : Ui where
  getTextSize s _ := (10 * s.length, 20)
  getImage _ := none
  strftime _ _ := "2000-01-01 00:00".toList
  validInk _ := true
  wallpaper := false
  hasFontMd := true
  homeLayout := some (.obj [("elements".toList, .arr [])])
  apps := []

structure Io where
  input : List Poll
  clock : ℚ
  canvas : Frame
  /-- What the framebuffer shows. -/
  screen : Frame

structure World where
  io : Io
  state : UiState
  dialBuffer : Text
  db : Db
  log : List Event

/-- What the main loop starts from. -/
def World.boot (db : Db) (input : List Poll) : World where
  io := { input := input, clock := 0, canvas := [], screen := [] }
  state := .HOME
  dialBuffer := []
  db := db
  log := []

instance : Interactive.Input World where
  remaining w := w.io.input.length

theorem remaining_world (w : World) : Input.remaining w = w.io.input.length := rfl

abbrev UI (α : Type) := Prog PyError World α

namespace World

def withIo (w : World) (io : Io) : World := { w with io := io }

/-- Journal entries are added at the end. -/
def journal (w : World) (evs : List Event) : World := { w with log := w.log ++ evs }

def withDb (w : World) (d : Db) : World := { w with db := d }

@[simp] theorem withIo_io (w : World) (io : Io) : (w.withIo io).io = io := rfl
@[simp] theorem journal_log (w : World) (evs : List Event) :
    (w.journal evs).log = w.log ++ evs := rfl
@[simp] theorem withDb_log (w : World) (d : Db) : (w.withDb d).log = w.log := rfl

end World

/-- Only drawing. -/
def Drawn (w w' : World) : Prop :=
  ∃ io, io.input = w.io.input ∧ io.clock = w.io.clock ∧ w' = w.withIo io

/-- Only drawing, and polls that may have been read. -/
def Quiet (w w' : World) : Prop :=
  ∃ io, io.input.length ≤ w.io.input.length ∧ w' = w.withIo io

/-- Only drawing, and at least one poll read. -/
def Reads (w w' : World) : Prop :=
  ∃ io, io.input.length < w.io.input.length ∧ w' = w.withIo io

/-- Only drawing, polls that may have been read, and these journal entries. -/
def Logged (evs : List Event) (w w' : World) : Prop :=
  ∃ io, io.input.length ≤ w.io.input.length ∧ w' = (w.withIo io).journal evs

theorem Drawn.refl (w : World) : Drawn w w := ⟨w.io, rfl, rfl, rfl⟩

theorem Drawn.trans {w w' w'' : World} (h : Drawn w w') (h' : Drawn w' w'') : Drawn w w'' := by
  obtain ⟨io, hi, hc, rfl⟩ := h
  obtain ⟨io', hi', hc', rfl⟩ := h'
  exact ⟨io', hi'.trans hi, hc'.trans hc, rfl⟩

theorem Drawn.input {w w' : World} (h : Drawn w w') : w'.io.input = w.io.input := by
  obtain ⟨io, hi, -, rfl⟩ := h
  exact hi

theorem Drawn.quiet {w w' : World} (h : Drawn w w') : Quiet w w' := by
  obtain ⟨io, hi, -, rfl⟩ := h
  exact ⟨io, by rw [hi], rfl⟩

theorem Quiet.refl (w : World) : Quiet w w := ⟨w.io, le_rfl, rfl⟩

theorem Reads.quiet {w w' : World} (h : Reads w w') : Quiet w w' := by
  obtain ⟨io, hlt, rfl⟩ := h
  exact ⟨io, hlt.le, rfl⟩

theorem Reads.remaining {w w' : World} (h : Reads w w') :
    w'.io.input.length < w.io.input.length := by
  obtain ⟨io, hlt, rfl⟩ := h
  exact hlt

theorem Quiet.trans {w w' w'' : World} (h : Quiet w w') (h' : Quiet w' w'') : Quiet w w'' := by
  obtain ⟨io, hle, rfl⟩ := h
  obtain ⟨io', hle', rfl⟩ := h'
  exact ⟨io', le_trans hle' hle, rfl⟩

theorem Quiet.trans_reads {w w' w'' : World} (h : Quiet w w') (h' : Reads w' w'') : Reads w w'' := by
  obtain ⟨io, hle, rfl⟩ := h
  obtain ⟨io', hlt, rfl⟩ := h'
  exact ⟨io', lt_of_lt_of_le hlt hle, rfl⟩

theorem Reads.trans_quiet {w w' w'' : World} (h : Reads w w') (h' : Quiet w' w'') : Reads w w'' := by
  obtain ⟨io, hlt, rfl⟩ := h
  obtain ⟨io', hle, rfl⟩ := h'
  exact ⟨io', lt_of_le_of_lt hle hlt, rfl⟩

theorem Quiet.logged {w w' : World} (h : Quiet w w') : Logged [] w w' := by
  obtain ⟨io, hle, rfl⟩ := h
  exact ⟨io, hle, by simp [World.journal, World.withIo]⟩

theorem Logged.single {w w₁ : World} (h : Quiet w w₁) (e : Event) :
    Logged [e] w (w₁.journal [e]) := by
  obtain ⟨io, hle, rfl⟩ := h
  exact ⟨io, hle, rfl⟩

theorem Logged.trans {evs evs' : List Event} {w w' w'' : World} (h : Logged evs w w')
    (h' : Logged evs' w' w'') : Logged (evs ++ evs') w w'' := by
  obtain ⟨io, hle, rfl⟩ := h
  obtain ⟨io', hle', rfl⟩ := h'
  refine ⟨io', le_trans hle' hle, ?_⟩
  simp [World.journal, World.withIo]

theorem Logged.trans_quiet {evs : List Event} {w w' w'' : World} (h : Logged evs w w')
    (h' : Quiet w' w'') : Logged evs w w'' := by
  simpa using h.trans h'.logged

theorem Quiet.trans_logged {evs : List Event} {w w' w'' : World} (h : Quiet w w')
    (h' : Logged evs w' w'') : Logged evs w w'' := by
  simpa using h.logged.trans h'

theorem Logged.log {evs : List Event} {w w' : World} (h : Logged evs w w') :
    w'.log = w.log ++ evs := by
  obtain ⟨io, -, rfl⟩ := h
  rfl

theorem Logged.db {evs : List Event} {w w' : World} (h : Logged evs w w') : w'.db = w.db := by
  obtain ⟨io, -, rfl⟩ := h
  rfl

theorem Logged.state {evs : List Event} {w w' : World} (h : Logged evs w w') :
    w'.state = w.state := by
  obtain ⟨io, -, rfl⟩ := h
  rfl

theorem Logged.dialBuffer {evs : List Event} {w w' : World} (h : Logged evs w w') :
    w'.dialBuffer = w.dialBuffer := by
  obtain ⟨io, -, rfl⟩ := h
  rfl

theorem Logged.input {evs : List Event} {w w' : World} (h : Logged evs w w') :
    w'.io.input.length ≤ w.io.input.length := by
  obtain ⟨io, hle, rfl⟩ := h
  exact hle

/-! ## Primitives -/

/-- One `select` and `os.read`. -/
def poll : UI Poll := do
  let w ← get
  match w.io.input with
  | [] => throw .waiting
  | p :: ps =>
    set (w.withIo { w.io with input := ps, clock := p.time })
    pure p

/-- `time.time()`. -/
def now : UI ℚ := do
  let w ← get
  pure w.io.clock

/-- Drawing calls, in order. -/
def paint (ops : List DrawOp) : UI Unit :=
  modify fun w => w.withIo { w.io with canvas := ops.foldl Frame.draw w.io.canvas }

/-- `ui.fb.update(ui.canvas)`. -/
def present : UI Unit :=
  modify fun w => w.withIo { w.io with screen := w.io.canvas }

def record (e : Event) : UI Unit := modify fun w => w.journal [e]

/-- `c.execute(stmt)` and `conn.commit()`. -/
def execute (stmt : Stmt) : UI Unit :=
  modify fun w => (w.withDb (stmt.run w.db)).journal [.sql stmt]

/-- A step that may raise. -/
def attempt {α : Type} : Except PyError α → UI α
  | .ok a => pure a
  | .error e => throw (.raised e)

/-- `NeoDCT_UI.read_keypress`. -/
def readKey : UI (Option Nat) := do
  let p ← poll
  pure p.key

/-- `NeoDCT_UI.wait_for_key`. -/
def waitForKey : UI Nat :=
  loop (fun _ : Unit => do
    match ← readKey with
    | some key => pure (.inr key)
    | none => pure (.inl ())) ()

/-- The input flush: read events until `select` finds none. -/
def flushInput : UI Unit :=
  loop (fun _ : Unit => do
    let p ← poll
    if p.data.isSome then pure (.inl ()) else pure (.inr ())) ()

theorem poll_spec (w : World) : wp poll
    (fun p w' => ∃ ps, w.io.input = p :: ps ∧
      w' = w.withIo { w.io with input := ps, clock := p.time })
    (fun h w' => h = .waiting ∧ w.io.input = [] ∧ w' = w) w := by
  unfold poll
  rw [wp_bind, wp_get]
  cases hi : w.io.input with
  | nil => exact ⟨rfl, rfl, rfl⟩
  | cons p ps => exact ⟨ps, rfl, rfl⟩

theorem now_spec (w : World) {E : Halt PyError → World → Prop} :
    wp now (fun t w' => t = w.io.clock ∧ w' = w) E w := ⟨rfl, rfl⟩

theorem paint_spec (ops : List DrawOp) (w : World) {E : Halt PyError → World → Prop} :
    wp (paint ops) (fun _ w' => Drawn w w') E w :=
  ⟨{ w.io with canvas := ops.foldl Frame.draw w.io.canvas }, rfl, rfl, rfl⟩

theorem present_spec (w : World) {E : Halt PyError → World → Prop} :
    wp present (fun _ w' => Drawn w w') E w :=
  ⟨{ w.io with screen := w.io.canvas }, rfl, rfl, rfl⟩

theorem record_spec (e : Event) (w : World) {E : Halt PyError → World → Prop} :
    wp (record e) (fun _ w' => w' = w.journal [e]) E w := rfl

theorem execute_spec (stmt : Stmt) (w : World) {E : Halt PyError → World → Prop} :
    wp (execute stmt) (fun _ w' => w' = (w.withDb (stmt.run w.db)).journal [.sql stmt]) E w := rfl

theorem attempt_spec {α : Type} (x : Except PyError α) (w : World) :
    wp (attempt x) (fun a w' => x = .ok a ∧ w' = w) (fun h w' => ∃ e, h = .raised e ∧ w' = w) w := by
  cases x with
  | ok a => exact ⟨rfl, rfl⟩
  | error e => exact ⟨e, rfl, rfl⟩

/-- Just these operations were drawn. -/
structure Painted (ops : List DrawOp) (w w' : World) : Prop where
  drawn : Drawn w w'
  canvas : w'.io.canvas = ops.foldl Frame.draw w.io.canvas

theorem Painted.trans {ops ops' : List DrawOp} {w w' w'' : World} (h : Painted ops w w')
    (h' : Painted ops' w' w'') : Painted (ops ++ ops') w w'' where
  drawn := h.drawn.trans h'.drawn
  canvas := by rw [h'.canvas, h.canvas, List.foldl_append]

theorem paint_painted (ops : List DrawOp) (w : World) {E : Halt PyError → World → Prop} :
    wp (paint ops) (fun _ w' => Painted ops w w') E w :=
  ⟨⟨{ w.io with canvas := ops.foldl Frame.draw w.io.canvas }, rfl, rfl, rfl⟩, rfl⟩

theorem present_painted (w : World) {E : Halt PyError → World → Prop} :
    wp present (fun _ w' => Painted [] w w' ∧ w'.io.screen = w'.io.canvas) E w :=
  ⟨⟨⟨{ w.io with screen := w.io.canvas }, rfl, rfl, rfl⟩, rfl⟩, rfl⟩

/-- Operations that are painted, and then shown. -/
theorem show_spec (ops : List DrawOp) (w : World) {E : Halt PyError → World → Prop} :
    wp (do paint ops; present : UI Unit) (fun _ w' => Drawn w w') E w := by
  refine wp_seq (paint_spec ops w) (fun _ _ h => h) ?_
  intro _ w' hq
  exact wp_mono (present_spec w') (fun _ _ h => hq.trans h) fun _ _ h => h

/-- A picture that is shown, and its entry. -/
theorem recordShow_spec (ops : List DrawOp) (e : Event) (w : World) {E : Halt PyError → World → Prop} :
    wp (do paint ops; present; record e : UI Unit)
      (fun _ w' => ∃ w₁, Drawn w w₁ ∧ w' = w₁.journal [e]) E w := by
  refine wp_seq (paint_spec ops w) (fun _ _ h => h) ?_
  intro _ w₁ h₁
  refine wp_seq (present_spec w₁) (fun _ _ h => h) ?_
  intro _ w₂ h₂
  refine wp_mono (record_spec e w₂) ?_ fun _ _ h => h
  rintro _ _ rfl
  exact ⟨w₂, h₁.trans h₂, rfl⟩

/-- Operations that are computed, which may raise, and then shown. -/
theorem attemptShow_spec (x : Except PyError (List DrawOp)) (w : World) :
    wp (do let ops ← attempt x; paint ops; present : UI Unit)
      (fun _ w' => Drawn w w') (fun _ w' => Drawn w w') w := by
  refine wp_seq (attempt_spec x w) ?_ ?_
  · rintro _ _ ⟨e, -, rfl⟩
    exact Drawn.refl _
  · rintro ops _ ⟨-, rfl⟩
    exact show_spec ops _

/-- What a program added to the journal. -/
def newEvents {α : Type} (p : UI α) (w : World) : List Event :=
  (finalState p w).log.drop w.log.length

theorem newEvents_eq {α : Type} {p : UI α} {w : World} {evs : List Event}
    (h : (finalState p w).log = w.log ++ evs) : newEvents p w = evs := by
  unfold newEvents
  rw [h, List.drop_left]

/-- What is made of one poll. -/
theorem poll_reads {α : Type} (f : Poll → α) (w : World) :
    wp (do let p ← poll; pure (f p)) (fun _ w' => Reads w w')
      (fun h w' => h = .waiting ∧ Quiet w w') w := by
  refine wp_seq (poll_spec w) ?_ ?_
  · rintro _ _ ⟨rfl, -, rfl⟩
    exact ⟨rfl, Quiet.refl _⟩
  · rintro p _ ⟨ps, hps, rfl⟩
    exact ⟨_, by rw [hps]; exact Nat.lt_succ_self _, rfl⟩

theorem readKey_spec (w : World) :
    wp readKey (fun _ w' => Reads w w') (fun h w' => h = .waiting ∧ Quiet w w') w :=
  poll_reads Poll.key w

/-- What waiting for a key does: the key is the next press, and the clock shows its time. -/
theorem waitForKey_timed (w : World) : wp waitForKey
    (fun key w' => Reads w w' ∧
      timedPresses w.io.input = (w'.io.clock, key) :: timedPresses w'.io.input)
    (fun h w' => h = .waiting ∧ timedPresses w.io.input = [] ∧ Quiet w w') w := by
  refine wp_loop (fun _ w' => Quiet w w' ∧ timedPresses w'.io.input = timedPresses w.io.input)
    ⟨Quiet.refl w, rfl⟩ ?_
  rintro - w₁ ⟨hq, hp⟩
  unfold readKey
  simp only [bind_assoc, pure_bind]
  refine wp_seq (poll_spec w₁) ?_ ?_
  · rintro _ _ ⟨rfl, hnil, rfl⟩
    exact ⟨rfl, by rw [← hp, hnil]; rfl, hq⟩
  · rintro p _ ⟨ps, hps, rfl⟩
    have hr : Reads w₁ (w₁.withIo { w₁.io with input := ps, clock := p.time }) :=
      ⟨_, by rw [hps]; exact Nat.lt_succ_self _, rfl⟩
    have hcons : timedPresses w.io.input =
        (p.key.map fun key => (p.time, key)).toList ++ timedPresses ps := by
      rw [← hp, hps]
      unfold timedPresses
      rw [List.filterMap_cons]
      cases p.key <;> rfl
    cases hk : p.key with
    | none =>
      rw [hk] at hcons
      exact ⟨⟨hq.trans hr.quiet, hcons.symm⟩, by simp [remaining_world, hps]⟩
    | some key =>
      rw [hk] at hcons
      exact ⟨hq.trans_reads hr, hcons⟩

theorem waitForKey_spec (w : World) : wp waitForKey
    (fun key w' => Reads w w' ∧ presses w.io.input = key :: presses w'.io.input)
    (fun h w' => h = .waiting ∧ presses w.io.input = [] ∧ Quiet w w') w := by
  refine wp_mono (waitForKey_timed w) ?_ ?_
  · rintro key w' ⟨hr, hp⟩
    refine ⟨hr, ?_⟩
    rw [presses_eq, hp, presses_eq]
    rfl
  · rintro h w' ⟨rfl, hp, hq⟩
    refine ⟨rfl, ?_, hq⟩
    rw [presses_eq, hp]
    rfl

/-- While a key is waited for, the canvas and the screen stay as they are. -/
theorem waitForKey_screen (w : World) : wp waitForKey
    (fun _ w' => w'.io.canvas = w.io.canvas ∧ w'.io.screen = w.io.screen)
    (fun _ w' => w'.io.canvas = w.io.canvas ∧ w'.io.screen = w.io.screen) w := by
  refine wp_loop (fun _ w' => w'.io.canvas = w.io.canvas ∧ w'.io.screen = w.io.screen) ⟨rfl, rfl⟩ ?_
  rintro - w₁ hw₁
  unfold readKey
  simp only [bind_assoc, pure_bind]
  refine wp_seq (poll_spec w₁) ?_ ?_
  · rintro _ _ ⟨-, -, rfl⟩
    exact hw₁
  · rintro p _ ⟨ps, hps, rfl⟩
    cases p.key with
    | none => exact ⟨hw₁, by simp [remaining_world, hps]⟩
    | some key => exact hw₁

/-- A loop whose iterations only draw and read only draws and reads. -/
theorem reads_loop {α β : Type} {body : β → UI (β ⊕ α)}
    (h : ∀ b w, wp (body b) (fun _ w' => Reads w w') (fun _ w' => Quiet w w') w) (b : β) (w : World) :
    wp (loop body b) (fun _ w' => Reads w w') (fun _ w' => Quiet w w') w := by
  refine wp_loop (fun _ w' => Quiet w w') (Quiet.refl w) ?_
  intro b w₁ hq
  refine wp_mono (h b w₁) ?_ fun _ _ h => hq.trans h
  rintro (b' | a) w₂ hr
  · refine ⟨hq.trans hr.quiet, ?_⟩
    exact hr.remaining
  · exact hq.trans_reads hr

/-- What is still to come after a flush: it ends at the first poll that finds nothing. -/
def afterFlush : List Poll → Option (List Poll)
  | [] => none
  | p :: ps => if p.data.isSome then afterFlush ps else some ps

theorem flushInput_rest (w : World) : wp flushInput
    (fun _ w' => Reads w w' ∧ afterFlush w.io.input = some w'.io.input)
    (fun h w' => (h = .waiting ∧ Quiet w w') ∧ afterFlush w.io.input = none) w := by
  refine wp_loop (fun _ w' => Quiet w w' ∧ afterFlush w'.io.input = afterFlush w.io.input)
    ⟨Quiet.refl w, rfl⟩ ?_
  rintro - w₁ ⟨hq, hrest⟩
  refine wp_seq (poll_spec w₁) ?_ ?_
  · rintro _ _ ⟨rfl, hnil, rfl⟩
    exact ⟨⟨rfl, hq⟩, by rw [← hrest, hnil]; rfl⟩
  · rintro p _ ⟨ps, hps, rfl⟩
    have hr : Reads w₁ (w₁.withIo { w₁.io with input := ps, clock := p.time }) :=
      ⟨_, by rw [hps]; exact Nat.lt_succ_self _, rfl⟩
    rw [hps, afterFlush] at hrest
    cases hd : p.data with
    | none =>
      rw [hd] at hrest
      exact ⟨hq.trans_reads hr, hrest.symm⟩
    | some data =>
      rw [hd] at hrest
      exact ⟨⟨hq.trans hr.quiet, hrest⟩, by simp [remaining_world, hps]⟩

theorem flushInput_spec (w : World) :
    wp flushInput (fun _ w' => Reads w w') (fun h w' => h = .waiting ∧ Quiet w w') w :=
  wp_mono (flushInput_rest w) (fun _ _ h => h.1) fun _ _ h => h.1

/-- A modal widget: flush, draw, then a loop whose iterations read. -/
theorem modal_reads {α β : Type} {draw : UI Unit} {body : β → UI (β ⊕ α)}
    (hdraw : ∀ w, wp draw (fun _ w' => Drawn w w') (fun _ w' => Drawn w w') w)
    (hbody : ∀ b w, wp (body b) (fun _ w' => Reads w w') (fun _ w' => Quiet w w') w) (b : β)
    (w : World) :
    wp (do flushInput; draw; loop body b : UI α)
      (fun _ w' => Reads w w') (fun _ w' => Quiet w w') w := by
  refine wp_seq (flushInput_spec w) (fun _ _ h => h.2) ?_
  intro _ w₁ hr
  refine wp_seq (hdraw w₁) (fun _ _ h => (hr.trans_quiet h.quiet).quiet) ?_
  intro _ w₂ hd
  have hr₂ := hr.trans_quiet hd.quiet
  exact wp_mono (reads_loop hbody b w₂) (fun _ _ h => hr₂.trans_quiet h.quiet)
    fun _ _ h => (hr₂.trans_quiet h).quiet

end NeoDCT
