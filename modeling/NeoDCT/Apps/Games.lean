import NeoDCT.Apps.Snake
import NeoDCT.Framework.Bars

/-!
# Snake on the phone

The rest of `SnakeGame` (apps/Games/main.py): what it draws, its two loops and its clock.  The generator is
`draws`: after `random.seed(t)`, the `k`-th choice is `draws t k`.

A `Console` is a game with the time it was seeded at and the time of its next move; `Console.next` is what
one poll of the keypad makes of it.  `run` is that machine, and the screen shows its game at all times
(`run_console`).
-/

namespace NeoDCT

open PyText Interactive

namespace SnakeGame

/-! ## The pictures -/

/-- `CELL`. -/
def cellSize : ℤ := 12

/-- `BOARD_TOP`. -/
def boardTop : ℤ := 32

/-- The box of a cell, inside its border. -/
def cellBox (c : Cell) (fill outline : Option Ink) : DrawOp :=
  let px := c.1 * cellSize
  let py := boardTop + c.2 * cellSize
  .rectangle (px + 1 : ℤ) (py + 1 : ℤ) (px + cellSize - 2 : ℤ) (py + cellSize - 2 : ℤ) fill outline

/-- Hollow, for the food. -/
def foodBox (c : Cell) : DrawOp := cellBox c (some (.named "black")) (some (.named "white"))

/-- Solid, for the snake. -/
def snakeBox (c : Cell) : DrawOp := cellBox c (some (.named "white")) none

/-- The score, as it is printed. -/
def scoreText (self : SnakeGame) : Text := (toString self.score).toList

/-- What `render` draws after it has cleared the board, down to the softkey. -/
def boardOps (ui : Ui) (self : SnakeGame) : List DrawOp :=
  let w := (ui.getTextSize self.scoreText .md).1
  [drawText 5 5 "Snake".toList .md "white",
    drawText (235 - w : ℤ) 5 self.scoreText .md "white",
    .rectangle 0 boardTop 239 (boardTop + gridH * cellSize : ℤ) none (some (.named "white"))] ++
  self.food.toList.map foodBox ++ self.snake.map snakeBox

/-- `render`; there is a `font_md` only if the fonts were loaded. -/
def render (ui : Ui) (self : SnakeGame) : UI Unit := do
  paint [fillBox 0 0 240 210 "black"]
  if ui.hasFontMd then do
    paint (self.boardOps ui)
    SoftKeyBar.app.update ui (some "Back".toList) true
  else throw (.raised .attributeError)

/-- The big text of `game_over`. -/
def gameOverTitle (ui : Ui) : DrawOp :=
  let text := "GAME OVER".toList
  let w := (ui.getTextSize text .xl).1
  drawText ((240 - w) / 2 : ℤ) 60 text .xl "white"

/-- The score of `game_over`. -/
def gameOverScore (ui : Ui) (self : SnakeGame) : DrawOp :=
  let text := "Score: ".toList ++ self.scoreText
  let w := (ui.getTextSize text .md).1
  drawText ((240 - w) / 2 : ℤ) 100 text .md "white"

/-! ## The loops -/

inductive LoopResult where
  | exit | dead
deriving DecidableEq, Repr

inductive Decision where
  | restart | exit
deriving DecidableEq, Repr

/-- `tick_delay`. -/
def tickDelay : ℚ := 3 / 20

/-- An iteration of the loop of `game_over`. -/
def gameOverPass (_ : Unit) : UI (Unit ⊕ Decision) := do
  let key ← readKey
  if key = some 50 ∨ key = some 28 ∨ key = some 5 then pure (.inr .restart)
  else if key = some 14 then pure (.inr .exit)
  else pure (.inl ())

/-- `game_over`. -/
def gameOver (ui : Ui) (self : SnakeGame) : UI Decision := do
  paint [fillBox 0 0 240 240 "black", gameOverTitle ui]
  if ui.hasFontMd then do
    paint [self.gameOverScore ui]
    SoftKeyBar.app.update ui (some "Restart".toList) true
    present
    Interactive.loop gameOverPass ()
  else throw (.raised .attributeError)

section
variable (ui : Ui) (draws : ℚ → ℕ → ℕ)

/-- An iteration of `loop`, on the game and the time of its next move.  A game has drawn once when it was
seeded, and once for each food that was eaten. -/
def loopPass (seed : ℚ) (s : SnakeGame × ℚ) : UI ((SnakeGame × ℚ) ⊕ (LoopResult × SnakeGame)) := do
  let key ← readKey
  if key = some 14 then pure (.inr (.exit, s.1))
  else do
    let self := s.1.keyed key
    if s.2 ≤ (← now) then do
      let (lives, self) ← attempt (self.step (draws seed (self.score + 1)))
      if lives then do
        self.render ui
        pure (.inl (self, (← now) + tickDelay))
      else pure (.inr (.dead, self))
    else pure (.inl (self, s.2))

/-- `loop`. -/
def loop (seed : ℚ) (self : SnakeGame) : UI (LoopResult × SnakeGame) := do
  let nextMove := (← now) + tickDelay
  Interactive.loop (loopPass ui draws seed) (self, nextMove)

/-- `reset`, and what it draws; it returns the time of the seed too. -/
def resetShow : UI (SnakeGame × ℚ) := do
  let seed ← now
  let self := reset (draws seed 0)
  self.render ui
  pure (self, seed)

/-- An iteration of `play`. -/
def playPass (s : SnakeGame × ℚ) : UI ((SnakeGame × ℚ) ⊕ Unit) := do
  match ← loop ui draws s.2 s.1 with
  | (.exit, _) => pure (.inr ())
  | (.dead, self) =>
    match ← self.gameOver ui with
    | .exit => pure (.inr ())
    | .restart => do
      let s ← resetShow ui draws
      pure (.inl s)

/-- `run`: `SnakeGame(ui)`, and `play`. -/
def run : UI Unit := do
  let s ← resetShow ui draws
  Interactive.loop (playPass ui draws) s

end

/-! ## The console -/

theorem Rep.head {g : SnakeGame} (h : g.Rep) : ∃ head body, g.snake = head :: body := by
  have hlength := h.length
  cases hsnake : g.snake with
  | nil =>
    rw [hsnake, List.length_nil] at hlength
    omega
  | cons head body => exact ⟨head, body, rfl⟩

structure Console where
  play : Play
  /-- When the game was seeded. -/
  seed : ℚ
  nextMove : ℚ

/-- A game that is started at a time. -/
def Console.start (draws : ℚ → ℕ → ℕ) (t : ℚ) : Console := ⟨Play.start (draws t 0), t, t + tickDelay⟩

/-- What a poll makes of the console; it returns when the game is left. -/
def Console.next (draws : ℚ → ℕ → ℕ) (c : Console) (p : Poll) : Console ⊕ Unit :=
  match c.play.phase with
  | .playing =>
    let due : Bool := c.nextMove ≤ p.time
    let play := c.play.next ⟨p.key, due, draws c.seed (c.play.game.score + 1)⟩
    if play.phase = .exited then .inr ()
    else .inl ⟨play, c.seed, if due then p.time + tickDelay else c.nextMove⟩
  | .gameOver =>
    let play := c.play.next ⟨p.key, false, draws p.time 0⟩
    match play.phase with
    | .playing => .inl (.start draws p.time)
    | .exited => .inr ()
    | _ => .inl { c with play := play }
  | .exited | .raised _ => .inr ()

/-- What holds of the console throughout: its game is as it should be, and no move came too early. -/
structure Console.Inv (c : Console) : Prop where
  play : c.play.Inv
  paced : c.seed + tickDelay * (c.play.game.score + 1) ≤ c.nextMove

variable {draws : ℚ → ℕ → ℕ} {c c' : Console} {g : SnakeGame}

theorem Console.start_inv (draws : ℚ → ℕ → ℕ) (t : ℚ) : (Console.start draws t).Inv where
  play := Play.start_inv _
  paced := by
    show t + tickDelay * ((0 : ℕ) + 1) ≤ t + tickDelay
    norm_num

theorem keyed_score (g : SnakeGame) (key : Option Nat) : (g.keyed key).score = g.score := by
  rcases keyed_cases g key with h | ⟨d, -, -, h⟩ <;> rw [h]

theorem step_score {choice : ℕ} {lives : Bool} {g' : SnakeGame} (h : g.step choice = .ok (lives, g')) :
    g'.score ≤ g.score + 1 := by
  cases hsnake : g.snake with
  | nil =>
    unfold step at h
    simp only [hsnake] at h
    cases h
  | cons head body =>
    obtain ⟨_, _, hstep, hsteps⟩ := step_steps choice hsnake
    rw [hstep] at h
    cases h
    cases hsteps with
    | dies => exact Nat.le_succ _
    | eats => exact le_rfl
    | moves => exact Nat.le_succ _

/-- A turn adds at most one to the score, and nothing when no move is due. -/
theorem loopBody_score (g : SnakeGame) (turn : Turn) :
    (g.loopBody turn).game.score ≤ g.score + if turn.due then 1 else 0 := by
  unfold loopBody
  by_cases hexit : turn.key = some 14
  · rw [if_pos hexit]
    exact Nat.le_add_right _ _
  rw [if_neg hexit, ← keyed_score g turn.key]
  simp only []
  by_cases hdue : turn.due = true
  · rw [if_pos hdue, if_pos hdue]
    cases hstep : (g.keyed turn.key).step turn.choice with
    | error e => exact Nat.le_succ _
    | ok r =>
      obtain ⟨lives, g'⟩ := r
      cases lives <;> exact step_score hstep
  · rw [if_neg hdue, if_neg hdue]
    exact le_rfl

/-- A turn of a game that has started. -/
theorem Console.next_playing (h : c.play.phase = .playing) (p : Poll) :
    c.next draws p =
      let play := c.play.game.loopBody ⟨p.key, c.nextMove ≤ p.time, draws c.seed (c.play.game.score + 1)⟩
      if play.phase = .exited then .inr ()
      else .inl ⟨play, c.seed, if c.nextMove ≤ p.time then p.time + tickDelay else c.nextMove⟩ := by
  unfold Console.next Play.next
  rw [h]
  simp

/-- A pass of the game scores one point at most, and only where a move was due. -/
theorem Console.playing_inv (h : c.Inv) (hphase : c.play.phase = .playing) {p : Poll}
    (hnext : c.next draws p = .inl c') : c'.Inv := by
  have hplay := Play.next_inv h.play ⟨p.key, c.nextMove ≤ p.time, draws c.seed (c.play.game.score + 1)⟩
  unfold Play.next at hplay
  rw [hphase] at hplay
  have hscore := loopBody_score c.play.game
    ⟨p.key, c.nextMove ≤ p.time, draws c.seed (c.play.game.score + 1)⟩
  rw [Console.next_playing hphase] at hnext
  revert hnext
  generalize c.play.game.loopBody
    ⟨p.key, c.nextMove ≤ p.time, draws c.seed (c.play.game.score + 1)⟩ = play at hplay hscore
  intro hnext
  simp only [] at hnext
  split at hnext
  · cases hnext
  cases hnext
  refine ⟨hplay, ?_⟩
  have hpaced := h.paced
  by_cases hdue : c.nextMove ≤ p.time
  · have hle : (play.game.score : ℚ) ≤ c.play.game.score + 1 := by
      exact_mod_cast (by simpa [hdue] using hscore : play.game.score ≤ c.play.game.score + 1)
    simp only [hdue, if_true, tickDelay] at hpaced ⊢
    linarith
  · have hle : (play.game.score : ℚ) ≤ c.play.game.score := by
      exact_mod_cast (by simpa [hdue] using hscore : play.game.score ≤ c.play.game.score)
    simp only [hdue, if_false, tickDelay] at hpaced ⊢
    linarith

/-- A pass of the game over screen: the score stays, or a new game starts. -/
theorem Console.gameOver_inv (h : c.Inv) (hphase : c.play.phase = .gameOver) {p : Poll}
    (hnext : c.next draws p = .inl c') : c'.Inv := by
  have hplay := Play.next_inv h.play ⟨p.key, false, draws p.time 0⟩
  unfold Console.next at hnext
  rw [hphase] at hnext
  simp only [] at hnext
  split at hnext
  · cases hnext
    exact Console.start_inv draws p.time
  · cases hnext
  · next hstays hstops =>
    cases hnext
    refine ⟨hplay, ?_⟩
    have hgame : (c.play.next ⟨p.key, false, draws p.time 0⟩).game = c.play.game := by
      revert hstays
      unfold Play.next
      rw [hphase]
      simp only [gameOverBody]
      split
      · exact fun h => absurd rfl h
      · split <;> exact fun _ => rfl
    show c.seed + tickDelay * (((c.play.next ⟨p.key, false, draws p.time 0⟩).game.score : ℚ) + 1) ≤ _
    rw [hgame]
    exact h.paced

theorem Console.next_inv (h : c.Inv) {p : Poll} (hnext : c.next draws p = .inl c') : c'.Inv := by
  cases hphase : c.play.phase with
  | playing => exact Console.playing_inv h hphase hnext
  | gameOver => exact Console.gameOver_inv h hphase hnext
  | exited =>
    unfold Console.next at hnext
    rw [hphase] at hnext
    cases hnext
  | raised e => exact absurd hphase (h.play.safe e)

/-! ## What is shown -/

/-- What `render` leaves on the screen, over what was there before. -/
def picture (ui : Ui) (self : SnakeGame) : Frame :=
  fillBox 0 0 240 210 "black" :: (self.boardOps ui ++ SoftKeyBar.app.drawOps ui (some "Back".toList))

/-- What `game_over` leaves on the screen. -/
def gameOverPicture (ui : Ui) (self : SnakeGame) : Frame :=
  [fillBox 0 0 240 240 "black", gameOverTitle ui, self.gameOverScore ui] ++
    SoftKeyBar.app.drawOps ui (some "Restart".toList)

/-- The screen shows this game, and the screen of a game that is over nothing else. -/
def Play.Shows (ui : Ui) (p : Play) (screen : Frame) : Prop :=
  match p.phase with
  | .playing => ∃ before, screen = before ++ p.game.picture ui
  | .gameOver => screen = p.game.gameOverPicture ui
  | .exited | .raised _ => False

theorem keyed_picture (ui : Ui) (g : SnakeGame) (key : Option Nat) :
    (g.keyed key).picture ui = g.picture ui := by
  rcases keyed_cases g key with h | ⟨d, -, -, h⟩ <;> rw [h]
  rfl

theorem cellBox_not_clears (c : Cell) (fill outline : Option Ink) : ¬ (cellBox c fill outline).clears := by
  unfold cellBox DrawOp.clears
  cases fill with
  | none => exact fun h => h
  | some ink =>
    rintro ⟨hx, -⟩
    have hx' : c.1 * cellSize + 1 = 0 := by exact_mod_cast hx
    unfold cellSize at hx'
    omega

theorem softkey_not_clears (ui : Ui) (text : Option Text) :
    ∀ op ∈ SoftKeyBar.app.drawOps ui text, ¬ op.clears := by
  unfold SoftKeyBar.drawOps SoftKeyBar.app
  cases text with
  | none => simp [fillBox, DrawOp.clears]
  | some text =>
    by_cases htext : text = []
    · simp [htext, fillBox, DrawOp.clears]
    · simp [htext, fillBox, drawText, DrawOp.clears]

theorem boardOps_not_clears (ui : Ui) (g : SnakeGame) : ∀ op ∈ g.boardOps ui, ¬ op.clears := by
  unfold boardOps
  simp only [List.forall_mem_append, List.forall_mem_cons, List.forall_mem_map]
  refine ⟨⟨⟨fun h => h, fun h => h, fun h => h, fun _ h => nomatch h⟩, fun c _ => ?_⟩, fun c _ => ?_⟩
  · exact cellBox_not_clears c _ _
  · exact cellBox_not_clears c _ _

section
variable {ui : Ui} (hfont : ui.hasFontMd = true)
include hfont

/-- Nothing is cleared but the board. -/
theorem render_spec (g : SnakeGame) (w : World) {E : Halt PyError → World → Prop} :
    wp (g.render ui) (fun _ w' => Drawn w w' ∧ ∃ before, w'.io.screen = before ++ g.picture ui) E w := by
  have hclear : ¬ (fillBox 0 0 240 210 "black").clears := by simp [fillBox, DrawOp.clears]
  unfold render
  rw [if_pos hfont]
  refine wp_seq (paint_painted _ w) (fun _ _ h => h) fun _ w₁ h₁ => ?_
  refine wp_seq (paint_painted _ w₁) (fun _ _ h => h) fun _ w₂ h₂ => ?_
  refine wp_mono (SoftKeyBar.update_painted ui _ _ w₂) ?_ fun _ _ h => h
  rintro _ w₃ ⟨h₃, hscreen⟩
  have hall := (h₁.trans h₂).trans h₃
  refine ⟨hall.drawn, w.io.canvas, ?_⟩
  rw [hscreen, hall.canvas, Frame.foldl_draw]
  · simp [picture]
  · simp only [List.forall_mem_append, List.forall_mem_singleton]
    exact ⟨⟨hclear, boardOps_not_clears ui g⟩, softkey_not_clears ui _⟩

theorem gameOver_screen (g : SnakeGame) (w : World) {E : Halt PyError → World → Prop}
    {Q : Decision → World → Prop}
    (h : ∀ w', Drawn w w' → w'.io.screen = g.gameOverPicture ui →
      wp (Interactive.loop gameOverPass ()) Q E w') : wp (g.gameOver ui) Q E w := by
  unfold gameOver
  rw [if_pos hfont]
  refine wp_seq (paint_painted _ w) (fun _ _ h => h) fun _ w₁ h₁ => ?_
  refine wp_seq (paint_painted _ w₁) (fun _ _ h => h) fun _ w₂ h₂ => ?_
  refine wp_seq (SoftKeyBar.update_painted ui _ _ w₂) (fun _ _ h => h) fun _ w₃ h₃ => ?_
  refine wp_seq (present_painted w₃) (fun _ _ h => h) fun _ w₄ h₄ => ?_
  have hall := ((h₁.trans h₂).trans h₃.1).trans h₄.1
  refine h w₄ hall.drawn ?_
  rw [h₄.2, hall.canvas, List.append_nil]
  refine Frame.foldl_draw_cleared w.io.canvas "black" ?_
  show ∀ op ∈ gameOverTitle ui :: g.gameOverScore ui :: SoftKeyBar.app.drawOps ui _, ¬ op.clears
  rw [List.forall_mem_cons, List.forall_mem_cons]
  exact ⟨fun h => h, fun h => h, softkey_not_clears ui _⟩

end

/-! ## The loops, poll by poll -/

theorem clock_of_drawn {w w' : World} (h : Drawn w w') : w'.io.clock = w.io.clock := by
  obtain ⟨io, -, hclock, rfl⟩ := h
  exact hclock

/-- The console that a program which ran from `w₀` to `w` has come to: what is left for it to read is what
is left for the program. -/
structure At (draws : ℚ → ℕ → ℕ) (w₀ : World) (c : Console) (w : World) : Prop where
  quiet : Quiet w₀ w
  rest : feed (Console.next draws) (.start draws w₀.io.clock) w₀.io.input =
    feed (Console.next draws) c w.io.input
  inv : c.Inv

/-- The game was left. -/
def Left (draws : ℚ → ℕ → ℕ) (w₀ w : World) : Prop :=
  Quiet w₀ w ∧ feed (Console.next draws) (.start draws w₀.io.clock) w₀.io.input = .inr ((), w.io.input)

/-- A key is waited for, and the game is shown. -/
def Waits (ui : Ui) (draws : ℚ → ℕ → ℕ) (w₀ : World) (h : Halt PyError) (w : World) : Prop :=
  h = .waiting ∧ w.io.input = [] ∧ ∃ c, At draws w₀ c w ∧ c.play.Shows ui w.io.screen

/-- The world after a poll. -/
def polled (w : World) (p : Poll) (ps : List Poll) : World :=
  w.withIo { w.io with input := ps, clock := p.time }

variable {w₀ w : World} {p : Poll} {ps : List Poll}

theorem polled_quiet (hps : w.io.input = p :: ps) : Quiet w (polled w p ps) :=
  ⟨_, by rw [hps]; exact Nat.le_succ _, rfl⟩

theorem At.drawn {w' : World} (h : At draws w₀ c w) (hd : Drawn w w') : At draws w₀ c w' where
  quiet := h.quiet.trans hd.quiet
  rest := by rw [h.rest, hd.input]
  inv := h.inv

theorem At.goes (h : At draws w₀ c w) (hps : w.io.input = p :: ps) (hnext : c.next draws p = .inl c') :
    At draws w₀ c' (polled w p ps) where
  quiet := h.quiet.trans (polled_quiet hps)
  rest := by
    rw [h.rest, hps, feed, hnext]
    rfl
  inv := Console.next_inv h.inv hnext

theorem At.leaves (h : At draws w₀ c w) (hps : w.io.input = p :: ps)
    (hnext : c.next draws p = .inr ()) : Left draws w₀ (polled w p ps) := by
  refine ⟨h.quiet.trans (polled_quiet hps), ?_⟩
  rw [h.rest, hps, feed, hnext]
  rfl

theorem polled_shorter (hps : w.io.input = p :: ps) {w' : World} (hd : Drawn (polled w p ps) w') :
    w'.io.input.length < w.io.input.length := by
  rw [hd.input, hps]
  exact Nat.lt_succ_self _

section
variable {ui : Ui} (hfont : ui.hasFontMd = true)
include hfont

theorem loopPass_spec {seed nextMove : ℚ} (h : At draws w₀ ⟨⟨.playing, g⟩, seed, nextMove⟩ w)
    (hshown : ∃ before, w.io.screen = before ++ g.picture ui) :
    wp (loopPass ui draws seed (g, nextMove))
      (fun r w' => w'.io.input.length < w.io.input.length ∧ match r with
        | .inl (g', nextMove') => At draws w₀ ⟨⟨.playing, g'⟩, seed, nextMove'⟩ w' ∧
          ∃ before, w'.io.screen = before ++ g'.picture ui
        | .inr (.exit, _) => Left draws w₀ w'
        | .inr (.dead, g') => ∃ nextMove', At draws w₀ ⟨⟨.gameOver, g'⟩, seed, nextMove'⟩ w')
      (Waits ui draws w₀) w := by
  unfold loopPass readKey
  simp only [bind_assoc, pure_bind]
  refine wp_seq (poll_spec w) ?_ ?_
  · rintro _ _ ⟨rfl, hnil, rfl⟩
    exact ⟨rfl, hnil, _, h, hshown⟩
  rintro p w₁ ⟨ps, hps, hw₁⟩
  obtain rfl : w₁ = polled w p ps := hw₁
  have hless := polled_shorter hps (Drawn.refl (polled w p ps))
  have hnext : Console.next draws ⟨⟨.playing, g⟩, seed, nextMove⟩ p = _ := Console.next_playing rfl p
  unfold loopBody at hnext
  by_cases hexit : p.key = some 14
  · rw [if_pos hexit] at hnext ⊢
    exact ⟨hless, h.leaves hps hnext⟩
  rw [if_neg hexit] at hnext ⊢
  refine wp_seq (now_spec _) (fun _ _ h => h) ?_
  rintro _ _ ⟨rfl, rfl⟩
  by_cases hdue : nextMove ≤ p.time
  · have hdue' : nextMove ≤ (polled w p ps).io.clock := hdue
    rw [if_pos hdue']
    simp only [decide_eq_true_eq, hdue, if_true] at hnext
    have hrep : g.Rep := h.inv.play.rep
    obtain ⟨head, body, hsnake⟩ := (keyed_rep hrep p.key).head
    obtain ⟨lives, g', hstep, -⟩ := step_steps (draws seed ((g.keyed p.key).score + 1)) hsnake
    have hdrawn : draws seed (g.score + 1) = draws seed ((g.keyed p.key).score + 1) := by
      rw [keyed_score]
    simp only [hdrawn, hstep] at hnext
    rw [hstep]
    simp only [attempt, pure_bind]
    cases lives with
    | false => exact ⟨hless, _, h.goes hps hnext⟩
    | true =>
      refine wp_seq (render_spec hfont g' _) (fun _ _ h => h) fun _ w₂ hw₂ => ?_
      refine wp_seq (now_spec _) (fun _ _ h => h) ?_
      rintro _ _ ⟨rfl, rfl⟩
      refine ⟨polled_shorter hps hw₂.1, ?_, hw₂.2⟩
      rw [clock_of_drawn hw₂.1]
      exact (h.goes hps hnext).drawn hw₂.1
  · have hdue' : ¬ nextMove ≤ (polled w p ps).io.clock := hdue
    rw [if_neg hdue']
    simp only [decide_eq_true_eq, hdue, if_false] at hnext
    refine ⟨hless, h.goes hps hnext, ?_⟩
    rw [keyed_picture]
    exact hshown

theorem loop_spec {seed : ℚ} (h : At draws w₀ ⟨⟨.playing, g⟩, seed, w.io.clock + tickDelay⟩ w)
    (hshown : ∃ before, w.io.screen = before ++ g.picture ui) :
    wp (loop ui draws seed g)
      (fun r w' => w'.io.input.length < w.io.input.length ∧ match r with
        | (.exit, _) => Left draws w₀ w'
        | (.dead, g') => ∃ nextMove', At draws w₀ ⟨⟨.gameOver, g'⟩, seed, nextMove'⟩ w')
      (Waits ui draws w₀) w := by
  unfold loop
  refine wp_seq (now_spec w) (fun _ _ h => h) ?_
  rintro _ w₁ ⟨rfl, hw₁⟩
  rw [hw₁]
  refine wp_loop (fun s w' => w'.io.input.length ≤ w.io.input.length ∧
    At draws w₀ ⟨⟨.playing, s.1⟩, seed, s.2⟩ w' ∧ ∃ before, w'.io.screen = before ++ s.1.picture ui)
    ⟨le_rfl, h, hshown⟩ ?_
  rintro ⟨g', nextMove⟩ w' ⟨hle, hat, hshown'⟩
  refine wp_mono (loopPass_spec hfont hat hshown') ?_ fun _ _ h => h
  rintro (⟨g'', nextMove'⟩ | ⟨_ | _, g''⟩) w'' ⟨hlt, hr⟩
  · exact ⟨⟨hlt.le.trans hle, hr⟩, hlt⟩
  · exact ⟨hlt.trans_le hle, hr⟩
  · exact ⟨hlt.trans_le hle, hr⟩

omit hfont in
theorem gameOverPass_spec {seed nextMove : ℚ} (h : At draws w₀ ⟨⟨.gameOver, g⟩, seed, nextMove⟩ w)
    (hshown : w.io.screen = g.gameOverPicture ui) :
    wp (gameOverPass ())
      (fun r w' => w'.io.input.length < w.io.input.length ∧ match r with
        | .inl () => At draws w₀ ⟨⟨.gameOver, g⟩, seed, nextMove⟩ w' ∧ w'.io.screen = g.gameOverPicture ui
        | .inr .exit => Left draws w₀ w'
        | .inr .restart => At draws w₀ (.start draws w'.io.clock) w')
      (Waits ui draws w₀) w := by
  unfold gameOverPass readKey
  simp only [bind_assoc, pure_bind]
  refine wp_seq (poll_spec w) ?_ ?_
  · rintro _ _ ⟨rfl, hnil, rfl⟩
    exact ⟨rfl, hnil, _, h, hshown⟩
  rintro p w₁ ⟨ps, hps, hw₁⟩
  obtain rfl : w₁ = polled w p ps := hw₁
  have hless := polled_shorter hps (Drawn.refl (polled w p ps))
  have hnext : Console.next draws ⟨⟨.gameOver, g⟩, seed, nextMove⟩ p = Console.next draws _ p := rfl
  conv at hnext =>
    rhs
    unfold Console.next Play.next
    simp only [gameOverBody]
  by_cases hrestart : p.key = some 50 ∨ p.key = some 28 ∨ p.key = some 5
  · rw [if_pos hrestart] at hnext ⊢
    exact ⟨hless, h.goes hps hnext⟩
  rw [if_neg hrestart] at hnext ⊢
  by_cases hexit : p.key = some 14
  · rw [if_pos hexit] at hnext ⊢
    exact ⟨hless, h.leaves hps hnext⟩
  · rw [if_neg hexit] at hnext ⊢
    exact ⟨hless, h.goes hps hnext, hshown⟩

theorem gameOver_spec {seed nextMove : ℚ} (h : At draws w₀ ⟨⟨.gameOver, g⟩, seed, nextMove⟩ w) :
    wp (g.gameOver ui)
      (fun r w' => w'.io.input.length < w.io.input.length ∧ match r with
        | .exit => Left draws w₀ w'
        | .restart => At draws w₀ (.start draws w'.io.clock) w')
      (Waits ui draws w₀) w := by
  refine gameOver_screen hfont g w fun w₁ hw₁ hscreen => ?_
  refine wp_loop (fun _ w' => w'.io.input.length ≤ w.io.input.length ∧
    At draws w₀ ⟨⟨.gameOver, g⟩, seed, nextMove⟩ w' ∧ w'.io.screen = g.gameOverPicture ui)
    ⟨by rw [hw₁.input], h.drawn hw₁, hscreen⟩ ?_
  rintro - w₂ ⟨hle, hat, hshown⟩
  refine wp_mono (gameOverPass_spec hat hshown) ?_ fun _ _ h => h
  rintro (_ | _ | _) w₃ ⟨hlt, hr⟩
  · exact ⟨⟨hlt.le.trans hle, hr⟩, hlt⟩
  · exact ⟨hlt.trans_le hle, hr⟩
  · exact ⟨hlt.trans_le hle, hr⟩

/-- A game that has just been started, and shown. -/
def Fresh (ui : Ui) (draws : ℚ → ℕ → ℕ) (w₀ : World) (s : SnakeGame × ℚ) (w : World) : Prop :=
  s = (reset (draws w.io.clock 0), w.io.clock) ∧ At draws w₀ (.start draws w.io.clock) w ∧
    ∃ before, w.io.screen = before ++ s.1.picture ui

theorem resetShow_spec (h : At draws w₀ (.start draws w.io.clock) w) {E : Halt PyError → World → Prop} :
    wp (resetShow ui draws) (fun s w' => Drawn w w' ∧ Fresh ui draws w₀ s w') E w := by
  unfold resetShow
  refine wp_seq (now_spec w) (fun _ _ h => h) ?_
  rintro _ w₁ ⟨rfl, hw₁⟩
  rw [hw₁]
  refine wp_seq (render_spec hfont _ w) (fun _ _ h => h) fun _ w' hw' => ?_
  refine ⟨hw'.1, ?_, ?_, hw'.2⟩
  · rw [clock_of_drawn hw'.1]
  · rw [clock_of_drawn hw'.1]
    exact h.drawn hw'.1

theorem playPass_spec {s : SnakeGame × ℚ} (h : Fresh ui draws w₀ s w) :
    wp (playPass ui draws s)
      (fun r w' => w'.io.input.length < w.io.input.length ∧ match r with
        | .inl s' => Fresh ui draws w₀ s' w'
        | .inr () => Left draws w₀ w')
      (Waits ui draws w₀) w := by
  obtain ⟨rfl, hat, hshown⟩ := h
  unfold playPass
  refine wp_seq (loop_spec hfont hat hshown) (fun _ _ h => h) ?_
  rintro ⟨_ | _, g'⟩ w₁ ⟨hlt, hr⟩
  · exact ⟨hlt, hr⟩
  obtain ⟨nextMove, hdead⟩ := hr
  refine wp_seq (gameOver_spec hfont hdead) (fun _ _ h => h) ?_
  rintro (_ | _) w₂ ⟨hlt', hr⟩
  · refine wp_seq (resetShow_spec hfont hr) (fun _ _ h => h) fun s' w₃ hw₃ => ?_
    refine ⟨?_, hw₃.2⟩
    rw [hw₃.1.input]
    exact hlt'.trans hlt
  · exact ⟨hlt'.trans hlt, hr⟩

theorem run_spec (w₀ : World) :
    wp (run ui draws) (fun _ w' => Left draws w₀ w') (Waits ui draws w₀) w₀ := by
  unfold run
  have hstart : At draws w₀ (.start draws w₀.io.clock) w₀ := ⟨.refl w₀, rfl, Console.start_inv draws _⟩
  refine wp_seq (resetShow_spec hfont hstart) (fun _ _ h => h) fun s w hw => ?_
  refine wp_loop (fun s w' => Fresh ui draws w₀ s w') hw.2 fun s' w' h => ?_
  refine wp_mono (playPass_spec hfont h) ?_ fun _ _ h => h
  rintro (s'' | _) w'' ⟨hlt, hr⟩
  · exact ⟨hr, hlt⟩
  · exact hr

end

/-! ## What the screen tells -/

/-- A box tells its cell. -/
theorem cellBox_inj {c c' : Cell} {fill outline fill' outline' : Option Ink}
    (h : cellBox c fill outline = cellBox c' fill' outline') : c = c' := by
  unfold cellBox at h
  injection h with hx hy
  have hx' : c.1 * cellSize + 1 = c'.1 * cellSize + 1 := by exact_mod_cast hx
  have hy' : boardTop + c.2 * cellSize + 1 = boardTop + c'.2 * cellSize + 1 := by exact_mod_cast hy
  unfold cellSize at hx' hy'
  exact Prod.ext (by omega) (by omega)

/-- The clearing of the board. -/
def clearBoard : DrawOp := fillBox 0 0 240 210 "black"

theorem cellBox_ne_clearBoard (c : Cell) (fill outline : Option Ink) :
    cellBox c fill outline ≠ clearBoard := by
  intro h
  unfold cellBox clearBoard fillBox at h
  injection h with hx
  have hx' : c.1 * cellSize + 1 = 0 := by exact_mod_cast hx
  unfold cellSize at hx'
  omega

theorem softkey_drawOps (ui : Ui) : ∃ op, SoftKeyBar.app.drawOps ui (some "Back".toList) =
    [fillBox 0 210 240 240 "black", op] ∧ op ≠ clearBoard :=
  ⟨_, rfl, fun h => nomatch h⟩

/-- The board is cleared once. -/
theorem clearBoard_not_mem (ui : Ui) (g : SnakeGame) :
    clearBoard ∉ g.boardOps ui ++ SoftKeyBar.app.drawOps ui (some "Back".toList) := by
  obtain ⟨op, hsoft, hop⟩ := softkey_drawOps ui
  have hall : ∀ o ∈ g.boardOps ui ++ SoftKeyBar.app.drawOps ui (some "Back".toList), o ≠ clearBoard := by
    rw [hsoft]
    unfold boardOps
    simp only [List.forall_mem_append, List.forall_mem_cons, List.forall_mem_map]
    refine ⟨⟨⟨⟨nofun, nofun, ?_, nofun⟩, fun c _ => ?_⟩, fun c _ => ?_⟩, ?_, hop, nofun⟩
    · intro h
      unfold clearBoard fillBox at h
      injection h with _ _ _ _ hfill
      cases hfill
    · exact cellBox_ne_clearBoard c _ _
    · exact cellBox_ne_clearBoard c _ _
    · intro h
      unfold clearBoard fillBox at h
      injection h with _ hy
      norm_num at hy
  exact fun h => hall clearBoard h rfl

/-- What follows the last of its kind. -/
theorem tail_of_last {α : Type} {a : α} {before before' after after' : List α} (h : a ∉ after)
    (h' : a ∉ after') (heq : before ++ a :: after = before' ++ a :: after') : after = after' := by
  rcases List.append_eq_append_iff.mp heq with ⟨bs, -, hrest⟩ | ⟨bs, -, hrest⟩
  · cases bs with
    | nil => exact (List.cons.inj hrest).2
    | cons b bs => exact absurd ((List.cons.inj hrest).2 ▸ List.mem_append_right bs List.mem_cons_self) h
  · cases bs with
    | nil => exact (List.cons.inj hrest).2.symm
    | cons b bs => exact absurd ((List.cons.inj hrest).2 ▸ List.mem_append_right bs List.mem_cons_self) h'

/-- Food is not drawn as the snake is, nor as the softkey. -/
theorem foodBox_ne (f : Cell) {snake : List Cell} {ops rest : List DrawOp} {x0 y0 x1 y1 : ℚ} {color : String} :
    foodBox f :: ops ≠ snake.map snakeBox ++ fillBox x0 y0 x1 y1 color :: rest := by
  intro h
  cases snake with
  | nil =>
    have hhead := (List.cons.inj h).1
    unfold foodBox cellBox fillBox at hhead
    injection hhead with _ _ _ _ _ houtline
    cases houtline
  | cons c snake =>
    have hhead := (List.cons.inj h).1
    unfold foodBox snakeBox cellBox at hhead
    injection hhead with _ _ _ _ _ houtline
    cases houtline

/-- **What is shown tells the game**: its snake, its food and its score. -/
theorem picture_tells (ui : Ui) {g g' : SnakeGame} {before before' : Frame}
    (h : before ++ g.picture ui = before' ++ g'.picture ui) :
    g.snake = g'.snake ∧ g.food = g'.food ∧ g.score = g'.score := by
  have htail := tail_of_last (clearBoard_not_mem ui g) (clearBoard_not_mem ui g') h
  obtain ⟨op, hsoft, -⟩ := softkey_drawOps ui
  rw [hsoft] at htail
  unfold boardOps at htail
  simp only [List.cons_append, List.nil_append, List.append_assoc, List.cons.injEq, true_and] at htail
  obtain ⟨hscore, hboxes⟩ := htail
  have htext : g.scoreText = g'.scoreText := by
    unfold drawText at hscore
    injection hscore
  have hboxes' : g.snake.map snakeBox ++ fillBox 0 210 240 240 "black" :: [op] =
      g'.snake.map snakeBox ++ fillBox 0 210 240 240 "black" :: [op] ∧ g.food = g'.food := by
    revert hboxes
    cases g.food with
    | none =>
      cases g'.food with
      | none => exact fun h => ⟨h, rfl⟩
      | some f' => exact fun h => absurd h.symm (foodBox_ne f')
    | some f =>
      cases g'.food with
      | none => exact fun h => absurd h (foodBox_ne f)
      | some f' =>
        intro h
        obtain ⟨hfood, hrest⟩ := List.cons.inj h
        exact ⟨hrest, congrArg some (cellBox_inj hfood)⟩
  have hinj : Function.Injective snakeBox := fun _ _ h => cellBox_inj h
  exact ⟨hinj.list_map (List.append_cancel_right hboxes'.1), hboxes'.2,
    Nat.repr_injective (String.toList_inj.mp htext)⟩

/-- A move that is not due, one that is, and Backspace. -/
def threePolls : List Poll := [⟨1 / 10, none⟩, ⟨1 / 5, none⟩, .press (1 / 4) 14]

end SnakeGame

end NeoDCT
