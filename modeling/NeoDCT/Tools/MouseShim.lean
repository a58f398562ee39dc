import NeoDCT.Lib.Prog

/-!
# The touch cursor

System/tools/mouse_shim.py: keys of the keyboard move a cursor, or touch the screen where it is, and an
absolute pointing device is told of it.  What is written to the device is a stream of single values; who
reads it takes the last of each kind at every `SYN_REPORT` (`reports`).  Whatever keys come, and however
the session ends,

    what is read there  =  the positions of a cursor that stops at the edges of the screen, each touch
                           a press and a release in one place                     (shim_reports)

and the keyboard is grabbed for as long as the cursor is moved, and no longer.
-/

namespace NeoDCT.MouseShim

open Interactive

/-! ## The program -/

/-- `WIDTH`. -/
def width : ℤ := 240

/-- `HEIGHT`. -/
def height : ℤ := 240

/-- `STEP`. -/
def step : ℤ := 8

/-- `e.EV_KEY`. -/
def evKey : ℕ := 1

def keyTab : ℕ := 15
def keyW : ℕ := 17
def keyA : ℕ := 30
def keyS : ℕ := 31
def keyD : ℕ := 32
def keyC : ℕ := 46
def keyM : ℕ := 50

/-- An event of the keyboard, and whether the keyboard can be grabbed when it comes. -/
structure KeyEvent where
  type : ℕ
  code : ℕ
  value : ℤ
  grabs : Bool
deriving DecidableEq

/-- What is written to the device. -/
inductive Written where
  | absX (value : ℤ)
  | absY (value : ℤ)
  | btnTouch (value : Bool)
  | syn
deriving DecidableEq

/-- What `main` holds, and what the kernel knows of the keyboard. -/
structure Shim where
  x : ℤ
  y : ℤ
  cursorMode : Bool
  grabbed : Bool
  written : List Written

/-- How the loop ends. -/
inductive Ending where
  /-- The exit key: the browser is killed. -/
  | exit
  | grabError
  | ungrabError
  /-- The keyboard is gone. -/
  | readError
deriving DecidableEq

def clamp (v lo hi : ℤ) : ℤ := max lo (min v hi)

namespace Shim

def write (s : Shim) (events : List Written) : Shim := { s with written := s.written ++ events }

/-- `send_position`. -/
def sendPosition (s : Shim) : Shim := s.write [.absX s.x, .absY s.y, .syn]

/-- `keyboard.ungrab()`: the kernel releases the keyboard for its grabber only. -/
def ungrab (s : Shim) : Option Shim := if s.grabbed then some { s with grabbed := false } else none

/-- Where the cursor is after a key, if the key moves it. -/
def moved (s : Shim) (code : ℕ) : Option (ℤ × ℤ) :=
  if code = keyW then some (s.x, s.y - step)
  else if code = keyS then some (s.x, s.y + step)
  else if code = keyA then some (s.x - step, s.y)
  else if code = keyD then some (s.x + step, s.y)
  else none

/-- The loop's body. -/
def handle (s : Shim) (event : KeyEvent) : Shim ⊕ (Ending × Shim) :=
  if event.type ≠ evKey ∨ event.value ≠ 1 then .inl s
  else if event.code = keyTab then
    if s.cursorMode then
      let s := { s with cursorMode := false }
      match s.ungrab with
      | some s => .inl s
      | none => .inr (.ungrabError, s)
    else if event.grabs then .inl { s with cursorMode := true, grabbed := true }
    else .inr (.grabError, { s with cursorMode := true })
  else if event.code = keyC then .inr (.exit, s)
  else if !s.cursorMode then .inl s
  else if event.code = keyM then
    .inl (((s.write [.btnTouch true]).sendPosition).write [.btnTouch false, .syn])
  else
    match s.moved event.code with
    | some (x, y) =>
      .inl ({ s with x := clamp x 0 (width - 1), y := clamp y 0 (height - 1) }.sendPosition)
    | none => .inl s

end Shim

/-- Before the keyboard is grabbed: the cursor is centered, and its position is sent. -/
def start : Shim := Shim.sendPosition ⟨width / 2, height / 2, true, false, []⟩

/-- What is left of a session. -/
structure Session where
  ending : Ending
  written : List Written
  grabbed : Bool
  /-- `ui.close()` was called. -/
  closed : Bool

/-- `finally`: an error of `ungrab` is dropped. -/
def finish (ending : Ending) (s : Shim) : Session :=
  let s := s.ungrab.getD s
  ⟨ending, s.written, s.grabbed, true⟩

/-- `main`, with a keyboard; the first `grab` stands before the `try`. -/
def main (grabs : Bool) (events : List KeyEvent) : Session :=
  if grabs then
    match feed Shim.handle { start with grabbed := true } events with
    | .inl s => finish .readError s
    | .inr ((ending, s), _) => finish ending s
  else ⟨.grabError, start.written, false, false⟩

/-! ## What is read -/

/-- What a reader of the device knows of the pointer. -/
structure Pointer where
  x : ℤ
  y : ℤ
  touch : Bool
deriving DecidableEq

def Pointer.read (p : Pointer) : Written → Pointer
  | .absX value => { p with x := value }
  | .absY value => { p with y := value }
  | .btnTouch value => { p with touch := value }
  | .syn => p

/-- The pointer at every report. -/
def reports : Pointer → List Written → List Pointer
  | _, [] => []
  | p, .syn :: rest => p :: reports p rest
  | p, event :: rest => reports (p.read event) rest

/-! ## The cursor -/

/-- What a key asks of the cursor. -/
inductive Command where
  | move (dx dy : ℤ)
  | touch
deriving DecidableEq

def command (code : ℕ) : Option Command :=
  if code = keyM then some .touch
  else if code = keyW then some (.move 0 (-1))
  else if code = keyS then some (.move 0 1)
  else if code = keyA then some (.move (-1) 0)
  else if code = keyD then some (.move 1 0)
  else none

/-- The commands of a session: `TAB` changes between moving and typing, and `C` is the last. -/
def commands (mode : Bool) : List KeyEvent → List Command
  | [] => []
  | event :: rest =>
    if event.type ≠ evKey ∨ event.value ≠ 1 then commands mode rest
    else if event.code = keyTab then
      if mode then commands false rest else if event.grabs then commands true rest else []
    else if event.code = keyC then []
    else if mode then (command event.code).toList ++ commands mode rest
    else commands mode rest

/-- A place on the screen. -/
structure Place where
  x : ℤ
  y : ℤ
  left : 0 ≤ x
  top : 0 ≤ y
  right : x < width
  bottom : y < height

/-- Steps of eight pixels, up to the edges. -/
def Place.move (p : Place) (dx dy : ℤ) : Place where
  x := max 0 (min (p.x + 8 * dx) 239)
  y := max 0 (min (p.y + 8 * dy) 239)
  left := le_max_left 0 _
  top := le_max_left 0 _
  right := by unfold width; omega
  bottom := by unfold height; omega

def Place.pointer (p : Place) (touch : Bool) : Pointer := ⟨p.x, p.y, touch⟩

/-- What is seen of a cursor: where it is after each move, and each touch, pressed and released. -/
def seen (p : Place) : List Command → List Pointer
  | [] => []
  | .move dx dy :: rest => (p.move dx dy).pointer false :: seen (p.move dx dy) rest
  | .touch :: rest => p.pointer true :: p.pointer false :: seen p rest

def center : Place := ⟨120, 120, by decide, by decide, by decide, by decide⟩

/-! ## What is read is the cursor -/

theorem reports_append (p : Pointer) (a b : List Written) :
    reports p (a ++ b) = reports p a ++ reports (a.foldl Pointer.read p) b := by
  induction a generalizing p with
  | nil => rfl
  | cons event a ih => cases event <;> simp [reports, ih, Pointer.read]

/-- The shim has its cursor at `p`, a reader that began with `q` knows it, and the keyboard is grabbed
while the cursor is moved. -/
structure Tracks (q : Pointer) (p : Place) (s : Shim) : Prop where
  x_eq : s.x = p.x
  y_eq : s.y = p.y
  known : s.written.foldl Pointer.read q = p.pointer false
  grabbed : s.grabbed = s.cursorMode

variable {q : Pointer} {p : Place} {s : Shim}

/-- A position that is sent is read. -/
theorem Tracks.sendPosition (h : Tracks q p s) (p' : Place) (s' : Shim) (hx : s'.x = p'.x)
    (hy : s'.y = p'.y) (hgrabbed : s'.grabbed = s'.cursorMode) (hwritten : s'.written = s.written) :
    Tracks q p' s'.sendPosition ∧
      reports q s'.sendPosition.written = reports q s.written ++ [p'.pointer false] := by
  have hread : s'.sendPosition.written = s.written ++ [.absX p'.x, .absY p'.y, .syn] := by
    rw [← hwritten, ← hx, ← hy]
    rfl
  refine ⟨⟨hx, hy, ?_, hgrabbed⟩, ?_⟩
  · rw [hread, List.foldl_append, h.known]
    rfl
  · rw [hread, reports_append, h.known]
    rfl

/-- A touch is read as a press and a release, in one place. -/
theorem Tracks.touch (h : Tracks q p s) :
    let s' := ((s.write [.btnTouch true]).sendPosition).write [.btnTouch false, .syn]
    Tracks q p s' ∧ reports q s'.written = reports q s.written ++ [p.pointer true, p.pointer false] := by
  intro s'
  have hread : s'.written =
      s.written ++ [.btnTouch true, .absX p.x, .absY p.y, .syn, .btnTouch false, .syn] := by
    show ((s.written ++ _) ++ [.absX s.x, .absY s.y, .syn]) ++ _ = _
    rw [h.x_eq, h.y_eq, List.append_assoc, List.append_assoc]
    rfl
  refine ⟨⟨h.x_eq, h.y_eq, ?_, h.grabbed⟩, ?_⟩
  · rw [hread, List.foldl_append, h.known]
    rfl
  · rw [hread, reports_append, h.known]
    rfl

/-- A key that moves the cursor does as it is told. -/
theorem Tracks.moved (h : Tracks q p s) {code : ℕ} {x y : ℤ} (hmoved : s.moved code = some (x, y)) :
    ∃ dx dy, command code = some (.move dx dy) ∧ clamp x 0 (width - 1) = (p.move dx dy).x ∧
      clamp y 0 (height - 1) = (p.move dx dy).y := by
  have hx : clamp p.x 0 (width - 1) = max 0 (min (p.x + 8 * 0) 239) := by simp [clamp, width]
  have hy : clamp p.y 0 (height - 1) = max 0 (min (p.y + 8 * 0) 239) := by simp [clamp, height]
  unfold Shim.moved at hmoved
  rw [h.x_eq, h.y_eq] at hmoved
  by_cases hw : code = keyW
  · rw [if_pos hw] at hmoved
    obtain ⟨rfl, rfl⟩ := Prod.mk.inj (Option.some.inj hmoved)
    exact ⟨0, -1, by rw [hw]; rfl, hx, rfl⟩
  by_cases hs : code = keyS
  · rw [if_neg hw, if_pos hs] at hmoved
    obtain ⟨rfl, rfl⟩ := Prod.mk.inj (Option.some.inj hmoved)
    exact ⟨0, 1, by rw [hs]; rfl, hx, rfl⟩
  by_cases ha : code = keyA
  · rw [if_neg hw, if_neg hs, if_pos ha] at hmoved
    obtain ⟨rfl, rfl⟩ := Prod.mk.inj (Option.some.inj hmoved)
    exact ⟨-1, 0, by rw [ha]; rfl, rfl, hy⟩
  by_cases hd : code = keyD
  · rw [if_neg hw, if_neg hs, if_neg ha, if_pos hd] at hmoved
    obtain ⟨rfl, rfl⟩ := Prod.mk.inj (Option.some.inj hmoved)
    exact ⟨1, 0, by rw [hd]; rfl, rfl, hy⟩
  · rw [if_neg hw, if_neg hs, if_neg ha, if_neg hd] at hmoved
    cases hmoved

/-- A key that neither moves the cursor nor touches is none of its commands. -/
theorem command_of_not_moved {code : ℕ} (hmoved : s.moved code = none) (htouch : code ≠ keyM) :
    command code = none := by
  unfold Shim.moved at hmoved
  unfold command
  rw [if_neg htouch]
  split at hmoved
  · cases hmoved
  next hw =>
    rw [if_neg hw]
    split at hmoved
    · cases hmoved
    next hs =>
      rw [if_neg hs]
      split at hmoved
      · cases hmoved
      next ha =>
        rw [if_neg ha]
        split at hmoved
        · cases hmoved
        next hd => rw [if_neg hd]

/-- `TAB` writes nothing: it changes the mode and grabs or releases the keyboard, or ends the loop. -/
theorem Tracks.tab (h : Tracks q p s) {event : KeyEvent} (hpress : ¬ (event.type ≠ evKey ∨ event.value ≠ 1))
    (htab : event.code = keyTab) :
    (∃ s', s.handle event = .inl s' ∧ Tracks q p s' ∧ s'.written = s.written ∧
      ∀ rest, commands s.cursorMode (event :: rest) = commands s'.cursorMode rest) ∨
    ∃ ending s', s.handle event = .inr (ending, s') ∧ ending ≠ .ungrabError ∧ s'.written = s.written ∧
      ∀ rest, commands s.cursorMode (event :: rest) = [] := by
  unfold Shim.handle
  rw [if_neg hpress, if_pos htab]
  cases hmode : s.cursorMode with
  | true =>
    left
    have hgrabbed : s.grabbed = true := h.grabbed.trans hmode
    refine ⟨{ s with cursorMode := false, grabbed := false }, ?_, ⟨h.x_eq, h.y_eq, h.known, rfl⟩, rfl,
      fun rest => ?_⟩
    · simp [Shim.ungrab, hgrabbed]
    · rw [commands, if_neg hpress, if_pos htab]
      rfl
  | false =>
    cases hgrabs : event.grabs with
    | true =>
      left
      refine ⟨{ s with cursorMode := true, grabbed := true }, by simp, ⟨h.x_eq, h.y_eq, h.known, rfl⟩, rfl,
        fun rest => ?_⟩
      rw [commands, if_neg hpress, if_pos htab, hgrabs]
      rfl
    | false =>
      right
      refine ⟨.grabError, { s with cursorMode := true }, by simp, by decide, rfl, fun rest => ?_⟩
      rw [commands, if_neg hpress, if_pos htab, hgrabs]
      rfl

/-- Any other key, while the cursor is moved. -/
theorem Tracks.cursorKey (h : Tracks q p s) (hmode : s.cursorMode = true) {event : KeyEvent}
    (hpress : ¬ (event.type ≠ evKey ∨ event.value ≠ 1)) (htab : event.code ≠ keyTab) (hexit : event.code ≠ keyC) :
    ∃ s' p' frames, s.handle event = .inl s' ∧ Tracks q p' s' ∧
      reports q s'.written = reports q s.written ++ frames ∧ s'.cursorMode = true ∧
      ∀ rest, seen p ((command event.code).toList ++ rest) = frames ++ seen p' rest := by
  unfold Shim.handle
  rw [if_neg hpress, if_neg htab, if_neg hexit, hmode]
  by_cases htouch : event.code = keyM
  · obtain ⟨htracks, hreports⟩ := h.touch
    refine ⟨_, p, [p.pointer true, p.pointer false], if_pos htouch, htracks, hreports, hmode, fun rest => ?_⟩
    have hcommand : command event.code = some .touch := if_pos htouch
    rw [hcommand]
    rfl
  · cases hmoved : s.moved event.code with
    | none =>
      refine ⟨s, p, [], if_neg htouch, h, (List.append_nil _).symm, hmode, fun rest => ?_⟩
      rw [command_of_not_moved hmoved htouch]
      rfl
    | some place =>
      obtain ⟨dx, dy, hcommand, hx, hy⟩ := h.moved hmoved
      obtain ⟨htracks, hreports⟩ := h.sendPosition (p.move dx dy)
        ⟨clamp place.1 0 (width - 1), clamp place.2 0 (height - 1), true, s.grabbed, s.written⟩ hx hy
        (h.grabbed.trans hmode) rfl
      refine ⟨_, p.move dx dy, _, if_neg htouch, htracks, hreports, rfl, fun rest => ?_⟩
      rw [hcommand]
      rfl

/-- One event: the loop goes on, and what it wrote is read as what is seen of the cursor; or it ends, and
there are no more commands. -/
theorem Tracks.handle (h : Tracks q p s) (event : KeyEvent) :
    (∃ s' p' frames, s.handle event = .inl s' ∧ Tracks q p' s' ∧
      reports q s'.written = reports q s.written ++ frames ∧
      ∀ rest, seen p (commands s.cursorMode (event :: rest)) = frames ++ seen p' (commands s'.cursorMode rest)) ∨
    ∃ ending s', s.handle event = .inr (ending, s') ∧ ending ≠ .ungrabError ∧ s'.written = s.written ∧
      ∀ rest, commands s.cursorMode (event :: rest) = [] := by
  by_cases hpress : event.type ≠ evKey ∨ event.value ≠ 1
  · left
    refine ⟨s, p, [], if_pos hpress, h, (List.append_nil _).symm, fun rest => ?_⟩
    rw [commands, if_pos hpress, List.nil_append]
  by_cases htab : event.code = keyTab
  · refine (h.tab hpress htab).imp_left fun ⟨s', hnext, htracks, hwritten, hcommands⟩ => ?_
    refine ⟨s', p, [], hnext, htracks, ?_, fun rest => ?_⟩
    · rw [hwritten, List.append_nil]
    · rw [hcommands, List.nil_append]
  by_cases hexit : event.code = keyC
  · right
    refine ⟨.exit, s, ?_, by decide, rfl, fun rest => ?_⟩
    · unfold Shim.handle
      rw [if_neg hpress, if_neg htab, if_pos hexit]
    · rw [commands, if_neg hpress, if_neg htab, if_pos hexit]
  left
  cases hmode : s.cursorMode with
  | false =>
    refine ⟨s, p, [], ?_, h, (List.append_nil _).symm, fun rest => ?_⟩
    · unfold Shim.handle
      rw [if_neg hpress, if_neg htab, if_neg hexit, hmode]
      rfl
    · rw [commands, if_neg hpress, if_neg htab, if_neg hexit, hmode]
      rfl
  | true =>
    obtain ⟨s', p', frames, hnext, htracks, hreports, hmode', hseen⟩ := h.cursorKey hmode hpress htab hexit
    refine ⟨s', p', frames, hnext, htracks, hreports, fun rest => ?_⟩
    rw [commands, if_neg hpress, if_neg htab, if_neg hexit, if_pos rfl, hseen, hmode']

/-- The loop, to its end. -/
theorem Tracks.feed (h : Tracks q p s) (events : List KeyEvent) :
    match feed Shim.handle s events with
    | .inl s' => s'.grabbed = s'.cursorMode ∧
      reports q s'.written = reports q s.written ++ seen p (commands s.cursorMode events)
    | .inr ((ending, s'), _) => ending ≠ .ungrabError ∧
      reports q s'.written = reports q s.written ++ seen p (commands s.cursorMode events) := by
  induction events generalizing s p with
  | nil => exact ⟨h.grabbed, by simp [commands, seen]⟩
  | cons event events ih =>
    rw [Interactive.feed]
    rcases h.handle event with ⟨s', p', frames, hstep, htracks, hreports, hseen⟩ |
      ⟨ending, s', hstep, hending, hwritten, hnone⟩
    · rw [hstep]
      have hrest := ih htracks
      rw [hreports, List.append_assoc, ← hseen] at hrest
      exact hrest
    · rw [hstep]
      refine ⟨hending, ?_⟩
      rw [hwritten, hnone, seen, List.append_nil]

/-- What is seen is on the screen. -/
theorem seen_on_screen (p : Place) (cs : List Command) :
    ∀ f ∈ seen p cs, (0 ≤ f.x ∧ f.x < width) ∧ (0 ≤ f.y ∧ f.y < height) := by
  induction cs generalizing p with
  | nil => exact fun f hf => nomatch hf
  | cons c cs ih =>
    cases c with
    | move dx dy =>
      unfold seen
      rw [List.forall_mem_cons]
      exact ⟨⟨⟨(p.move dx dy).left, (p.move dx dy).right⟩, (p.move dx dy).top, (p.move dx dy).bottom⟩,
        ih (p.move dx dy)⟩
    | touch =>
      unfold seen
      rw [List.forall_mem_cons, List.forall_mem_cons]
      exact ⟨⟨⟨p.left, p.right⟩, p.top, p.bottom⟩, ⟨⟨p.left, p.right⟩, p.top, p.bottom⟩, ih p⟩

/-- **What is read of the device is the cursor**, whatever is typed, and however the session ends; the
keyboard is grabbed for as long as the cursor is moved, and is released at the end. -/
theorem shim_reports (grabs : Bool) (events : List KeyEvent) (x₀ y₀ : ℤ) :
    let session := main grabs events
    let shown := center.pointer false :: seen center (if grabs then commands true events else [])
    reports ⟨x₀, y₀, false⟩ session.written = shown ∧
    (∀ f ∈ shown, (0 ≤ f.x ∧ f.x < width) ∧ (0 ≤ f.y ∧ f.y < height)) ∧
    (session.grabbed = false ∧ session.closed = grabs ∧ session.ending ≠ .ungrabError) ∧
    ∀ pre s, feed Shim.handle { start with grabbed := true } pre = .inl s → s.grabbed = s.cursorMode := by
  intro session shown
  have hstart : Tracks ⟨x₀, y₀, false⟩ center { start with grabbed := true } := ⟨rfl, rfl, rfl, rfl⟩
  have hshown : ∀ f ∈ shown, (0 ≤ f.x ∧ f.x < width) ∧ (0 ≤ f.y ∧ f.y < height) := by
    rw [List.forall_mem_cons]
    exact ⟨⟨⟨center.left, center.right⟩, center.top, center.bottom⟩, seen_on_screen _ _⟩
  have hloop : ∀ pre s, feed Shim.handle { start with grabbed := true } pre = .inl s →
      s.grabbed = s.cursorMode := by
    intro pre s hpre
    have hfeed := hstart.feed pre
    rw [hpre] at hfeed
    exact hfeed.1
  have hfinish : ∀ ending s, (finish ending s).written = s.written ∧ (finish ending s).grabbed = false := by
    intro ending s
    unfold finish Shim.ungrab
    cases hgrabbed : s.grabbed with
    | true => exact ⟨rfl, rfl⟩
    | false => exact ⟨rfl, hgrabbed⟩
  cases grabs with
  | false => exact ⟨rfl, hshown, ⟨rfl, rfl, fun hne => nomatch hne⟩, hloop⟩
  | true =>
    have hfeed := hstart.feed events
    cases hend : feed Shim.handle { start with grabbed := true } events with
    | inl s =>
      have hsession : session = finish .readError s := by
        simp only [session, main, hend, if_true]
      rw [hend] at hfeed
      rw [hsession, (hfinish _ s).1, (hfinish _ s).2]
      exact ⟨hfeed.2, hshown, ⟨rfl, rfl, fun hne => nomatch hne⟩, hloop⟩
    | inr r =>
      obtain ⟨⟨ending, s⟩, rest⟩ := r
      have hsession : session = finish ending s := by
        simp only [session, main, hend, if_true]
      rw [hend] at hfeed
      rw [hsession, (hfinish _ s).1, (hfinish _ s).2]
      exact ⟨hfeed.2, hshown, ⟨rfl, rfl, hfeed.1⟩, hloop⟩

end NeoDCT.MouseShim
