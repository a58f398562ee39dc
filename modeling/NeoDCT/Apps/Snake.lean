import NeoDCT.Lib.Runs
import NeoDCT.Screen

/-!
# Snake

`SnakeGame` (apps/Games/main.py).  A `Play` is a game with the place of `play` it is at.  A `Turn` is
one iteration of `loop`, or of the loop of `game_over`: the key that `poll_key` returned, whether the
next move was due, and the number that `random.choice` draws.

A reachable game is well-formed (`play_rep`), and its snake never turns back into its own neck
(`play_neck`).
-/

namespace NeoDCT

open Interactive

abbrev Cell := ℤ × ℤ

structure SnakeGame where
  snake : List Cell
  direction : Cell
  nextDirection : Cell
  score : Nat
  food : Option Cell
deriving DecidableEq

namespace SnakeGame

/-- `GRID_W`. -/
def gridW : Nat := 20

/-- `GRID_H`. -/
def gridH : Nat := 14

/-- All `(x, y)`, in the order of `spawn_food`. -/
def board : List Cell :=
  (List.range gridW).flatMap fun (x : Nat) => (List.range gridH).map fun (y : Nat) => (↑x, ↑y)

/-- `spawn_food`; `random.choice` raises on an empty list, but is not asked to. -/
def spawnFood (choice : Nat) (self : SnakeGame) : SnakeGame :=
  let openCells := board.filter (· ∉ self.snake)
  { self with food := openCells[choice % openCells.length]? }

/-- `reset`. -/
def reset (choice : Nat) : SnakeGame :=
  let (cx, cy) : Cell := (gridW / 2, gridH / 2)
  spawnFood choice {
    snake := [(cx, cy - 1), (cx, cy), (cx, cy + 1)]
    direction := (0, -1)
    nextDirection := (0, -1)
    score := 0
    food := none }

/-- `direction_from_key`. -/
def directionFromKey (key : Nat) : Option Cell :=
  if key = 103 ∨ key = 3 then some (0, -1)
  else if key = 108 ∨ key = 9 then some (0, 1)
  else if key = 105 ∨ key = 5 then some (-1, 0)
  else if key = 106 ∨ key = 7 then some (1, 0)
  else none

/-- `step`: whether the snake lives, and the game after it. -/
def step (choice : Nat) (self : SnakeGame) : Except PyError (Bool × SnakeGame) :=
  let self := { self with direction := self.nextDirection }
  match self.snake with
  | [] => .error .indexError
  | (hx, hy) :: _ =>
    let (nx, ny) := (hx + self.direction.1, hy + self.direction.2)
    if nx < 0 ∨ gridW ≤ nx ∨ ny < 0 ∨ gridH ≤ ny then .ok (false, self)
    else
      let newHead := (nx, ny)
      if newHead ∈ self.snake then .ok (false, self)
      else
        let self := { self with snake := newHead :: self.snake }
        if self.food = some newHead then
          .ok (true, spawnFood choice { self with score := self.score + 1 })
        else .ok (true, { self with snake := self.snake.dropLast })

/-- What `loop` does with a key, other than KEY_BACK. -/
def press (self : SnakeGame) (key : Nat) : SnakeGame :=
  match directionFromKey key with
  | none => self
  | some newDir =>
    -- no 180° turn
    if (newDir.1 + self.direction.1, newDir.2 + self.direction.2) ≠ (0, 0) then
      { self with nextDirection := newDir }
    else self

/-- What `loop` does with what `poll_key` returned. -/
def keyed (self : SnakeGame) : Option Nat → SnakeGame
  | none => self
  | some key => self.press key

/-! ## Playing -/

inductive Phase where
  | playing | gameOver | exited
  | raised (e : PyError)
deriving DecidableEq, Repr

structure Play where
  phase : Phase
  game : SnakeGame

structure Turn where
  key : Option Nat
  due : Bool
  choice : Nat
deriving DecidableEq, Repr

/-- An iteration of `loop`. -/
def loopBody (self : SnakeGame) (turn : Turn) : Play :=
  if turn.key = some 14 then ⟨.exited, self⟩
  else
    let self := self.keyed turn.key
    if turn.due then
      match self.step turn.choice with
      | .error e => ⟨.raised e, { self with direction := self.nextDirection }⟩
      | .ok (true, self) => ⟨.playing, self⟩
      | .ok (false, self) => ⟨.gameOver, self⟩
    else ⟨.playing, self⟩

/-- An iteration of the loop of `game_over`; `play` resets the game to restart it. -/
def gameOverBody (self : SnakeGame) (turn : Turn) : Play :=
  if turn.key = some 50 ∨ turn.key = some 28 ∨ turn.key = some 5 then ⟨.playing, reset turn.choice⟩
  else if turn.key = some 14 then ⟨.exited, self⟩
  else ⟨.gameOver, self⟩

/-- The next iteration of `play`. -/
def Play.next (p : Play) (turn : Turn) : Play :=
  match p.phase with
  | .playing => p.game.loopBody turn
  | .gameOver => p.game.gameOverBody turn
  | .exited | .raised _ => p

/-- `play`, when it starts: `__init__` resets the game. -/
def Play.start (choice : Nat) : Play := ⟨.playing, reset choice⟩

/-! ## The board and the food -/

def OnBoard (c : Cell) : Prop := 0 ≤ c.1 ∧ c.1 < 20 ∧ 0 ≤ c.2 ∧ c.2 < 14

theorem mem_board (c : Cell) : c ∈ board ↔ OnBoard c := by
  obtain ⟨x, y⟩ := c
  unfold board OnBoard gridW gridH
  simp only [List.mem_flatMap, List.mem_range, List.mem_map, Prod.mk.injEq]
  constructor
  · rintro ⟨i, hi, j, hj, rfl, rfl⟩
    omega
  · rintro ⟨hx, hx', hy, hy'⟩
    exact ⟨x.toNat, by omega, y.toNat, by omega, by omega, by omega⟩

/-- The snake fills the board. -/
def Full (self : SnakeGame) : Prop := ∀ c, OnBoard c → c ∈ self.snake

/-- The food is on the board and not on the snake, or there is no room for it. -/
structure Fed (g : SnakeGame) : Prop where
  onBoard : ∀ f, g.food = some f → OnBoard f
  off : ∀ f, g.food = some f → f ∉ g.snake
  none_iff : g.food = none ↔ g.Full

/-- Wherever the choice falls. -/
theorem spawnFood_fed (choice : Nat) (self : SnakeGame) : (self.spawnFood choice).Fed := by
  have hmem : ∀ f, (self.spawnFood choice).food = some f → OnBoard f ∧ f ∉ self.snake := by
    intro f hf
    obtain ⟨hb, hs⟩ := List.mem_filter.mp (List.mem_of_getElem? hf)
    exact ⟨(mem_board f).mp hb, by simpa using hs⟩
  constructor
  · exact fun f hf => (hmem f hf).1
  · exact fun f hf => (hmem f hf).2
  · constructor
    · intro hnone c hc
      by_contra hfree
      have hopen : c ∈ board.filter (· ∉ self.snake) :=
        List.mem_filter.mpr ⟨(mem_board c).mpr hc, decide_eq_true hfree⟩
      have hle := List.getElem?_eq_none_iff.mp hnone
      have hlt := Nat.mod_lt choice (List.length_pos_of_mem hopen)
      omega
    · intro hfull
      cases hfood : (self.spawnFood choice).food with
      | none => rfl
      | some f =>
        obtain ⟨hb, hs⟩ := hmem f hfood
        exact absurd (hfull f hb) hs

/-! ## One step -/

/-- The cell that the head moves to. -/
def target (self : SnakeGame) (head : Cell) : Cell := head + self.nextDirection

/-- **What a step does.** -/
inductive Steps (choice : Nat) (self : SnakeGame) (head : Cell) (body : List Cell) :
    Bool → SnakeGame → Prop
  /-- The head would leave the board, or hit the snake. -/
  | dies : ¬ OnBoard (self.target head) ∨ self.target head ∈ self.snake →
    Steps choice self head body false { self with direction := self.nextDirection }
  | eats : OnBoard (self.target head) → self.target head ∉ self.snake →
    self.food = some (self.target head) →
    Steps choice self head body true (spawnFood choice { self with
      direction := self.nextDirection
      snake := self.target head :: self.snake
      score := self.score + 1 })
  | moves : OnBoard (self.target head) → self.target head ∉ self.snake →
    self.food ≠ some (self.target head) →
    Steps choice self head body true { self with
      direction := self.nextDirection
      snake := self.target head :: self.snake.dropLast }

theorem step_steps (choice : Nat) {self : SnakeGame} {head : Cell} {body : List Cell}
    (hsnake : self.snake = head :: body) :
    ∃ lives game, self.step choice = .ok (lives, game) ∧ Steps choice self head body lives game := by
  obtain ⟨hx, hy⟩ := head
  have hoff : (self.target (hx, hy)).1 < 0 ∨ (gridW : ℤ) ≤ (self.target (hx, hy)).1 ∨
      (self.target (hx, hy)).2 < 0 ∨ (gridH : ℤ) ≤ (self.target (hx, hy)).2 ↔
      ¬ OnBoard (self.target (hx, hy)) := by
    unfold OnBoard gridW gridH
    omega
  have hstep : self.step choice =
      if (self.target (hx, hy)).1 < 0 ∨ (gridW : ℤ) ≤ (self.target (hx, hy)).1 ∨
          (self.target (hx, hy)).2 < 0 ∨ (gridH : ℤ) ≤ (self.target (hx, hy)).2 then
        Except.ok (false, { self with direction := self.nextDirection })
      else if self.target (hx, hy) ∈ self.snake then
        Except.ok (false, { self with direction := self.nextDirection })
      else if self.food = some (self.target (hx, hy)) then
        Except.ok (true, spawnFood choice { self with
          direction := self.nextDirection
          snake := self.target (hx, hy) :: self.snake
          score := self.score + 1 })
      else
        Except.ok (true, { self with
          direction := self.nextDirection
          snake := (self.target (hx, hy) :: self.snake).dropLast }) := by
    unfold step
    simp only [hsnake]
    rfl
  have hne : self.snake ≠ [] := by simp [hsnake]
  rw [hstep]
  by_cases hon : OnBoard (self.target (hx, hy))
  · rw [if_neg fun h => hoff.mp h hon]
    by_cases hhit : self.target (hx, hy) ∈ self.snake
    · rw [if_pos hhit]
      exact ⟨_, _, rfl, .dies (Or.inr hhit)⟩
    rw [if_neg hhit]
    by_cases hfood : self.food = some (self.target (hx, hy))
    · rw [if_pos hfood]
      exact ⟨_, _, rfl, .eats hon hhit hfood⟩
    · rw [if_neg hfood, List.dropLast_cons_of_ne_nil hne]
      exact ⟨_, _, rfl, .moves hon hhit hfood⟩
  · rw [if_pos (hoff.mpr hon)]
    exact ⟨_, _, rfl, .dies (Or.inl hon)⟩

/-! ## Well-formed games -/

/-- Orthogonally adjacent. -/
def Adjacent (a b : Cell) : Prop :=
  (a.1 = b.1 ∧ (a.2 = b.2 + 1 ∨ b.2 = a.2 + 1)) ∨ (a.2 = b.2 ∧ (a.1 = b.1 + 1 ∨ b.1 = a.1 + 1))

/-- The representation invariant. -/
structure Rep (g : SnakeGame) : Prop where
  nodup : g.snake.Nodup
  onBoard : ∀ c ∈ g.snake, OnBoard c
  chain : g.snake.IsChain Adjacent
  length : g.snake.length = 3 + g.score
  fed : g.Fed

/-- Both directions are directions, and the next one does not turn around. -/
structure Steered (g : SnakeGame) : Prop where
  direction : g.direction ∈ [(0, -1), (0, 1), (-1, 0), (1, 0)]
  next : g.nextDirection ∈ [(0, -1), (0, 1), (-1, 0), (1, 0)]
  forward : g.nextDirection ≠ -g.direction

/-- `snake[1] = snake[0] - direction`. -/
def Neck (self : SnakeGame) : Prop :=
  ∃ head neck body, self.snake = head :: neck :: body ∧ neck = head - self.direction

variable {g g' : SnakeGame} {head : Cell} {body : List Cell} {choice : Nat} {lives : Bool}

theorem reset_rep (choice : Nat) : (reset choice).Rep := by
  constructor
  · show [((10 : ℤ), (6 : ℤ)), (10, 7), (10, 8)].Nodup
    decide
  · show ∀ c ∈ [((10 : ℤ), (6 : ℤ)), (10, 7), (10, 8)], OnBoard c
    unfold OnBoard
    decide
  · show [((10 : ℤ), (6 : ℤ)), (10, 7), (10, 8)].IsChain Adjacent
    simp [Adjacent]
  · rfl
  · exact spawnFood_fed _ _

theorem reset_steered (choice : Nat) : (reset choice).Steered := by
  constructor
  · show ((0 : ℤ), (-1 : ℤ)) ∈ _
    decide
  · show ((0 : ℤ), (-1 : ℤ)) ∈ _
    decide
  · show ((0 : ℤ), (-1 : ℤ)) ≠ -(0, -1)
    decide

theorem reset_neck (choice : Nat) : (reset choice).Neck :=
  ⟨(10, 6), (10, 7), [(10, 8)], rfl, rfl⟩

/-! ## Keys -/

theorem directionFromKey_mem {key : Nat} {d : Cell} (h : directionFromKey key = some d) :
    d ∈ [((0 : ℤ), (-1 : ℤ)), (0, 1), (-1, 0), (1, 0)] := by
  unfold directionFromKey at h
  split at h
  · cases h
    decide
  · split at h
    · cases h
      decide
    · split at h
      · cases h
        decide
      · split at h
        · cases h
          decide
        · cases h

/-- A key changes the next direction, to one that does not turn around; or nothing. -/
theorem keyed_cases (g : SnakeGame) (key : Option Nat) : g.keyed key = g ∨
    ∃ d, d ∈ [((0 : ℤ), (-1 : ℤ)), (0, 1), (-1, 0), (1, 0)] ∧ d ≠ -g.direction ∧
      g.keyed key = { g with nextDirection := d } := by
  cases key with
  | none => exact Or.inl rfl
  | some key =>
    show g.press key = g ∨ _
    unfold press
    cases hd : directionFromKey key with
    | none => exact Or.inl rfl
    | some d =>
      simp only []
      by_cases hturn : (d.1 + g.direction.1, d.2 + g.direction.2) = (0, 0)
      · exact Or.inl (if_neg (not_not.mpr hturn))
      · refine Or.inr ⟨d, directionFromKey_mem hd, ?_, ?_⟩
        · rintro rfl
          refine hturn ?_
          simp
        · show g.press key = _
          unfold press
          rw [hd]
          exact if_pos hturn

theorem keyed_rep (h : g.Rep) (key : Option Nat) : (g.keyed key).Rep := by
  rcases keyed_cases g key with hsame | ⟨d, -, -, hd⟩
  · rw [hsame]
    exact h
  · rw [hd]
    exact ⟨h.nodup, h.onBoard, h.chain, h.length, h.fed.onBoard, h.fed.off, h.fed.none_iff⟩

theorem keyed_steered (h : g.Steered) (key : Option Nat) : (g.keyed key).Steered := by
  rcases keyed_cases g key with hsame | ⟨d, hmem, hforward, hd⟩
  · rw [hsame]
    exact h
  · rw [hd]
    exact ⟨h.direction, hmem, hforward⟩

theorem keyed_neck (h : g.Neck) (key : Option Nat) : (g.keyed key).Neck := by
  rcases keyed_cases g key with hsame | ⟨d, -, -, hd⟩
  · rw [hsame]
    exact h
  · rw [hd]
    exact h

/-! ## What a step keeps -/

theorem Steps.unchanged (h : Steps choice g head body false g') :
    g'.snake = g.snake ∧ g'.score = g.score ∧ g'.food = g.food := by
  cases h with
  | dies => exact ⟨rfl, rfl, rfl⟩

theorem adjacent_target (h : g.Steered) (head : Cell) : Adjacent (g.target head) head := by
  have hnext := h.next
  simp only [List.mem_cons, List.not_mem_nil, or_false] at hnext
  unfold Adjacent target
  rcases hnext with hd | hd | hd | hd <;> rw [hd] <;> simp

/-- A move leaves the food where it is: off the snake, and the cell that the tail has left is free. -/
theorem Rep.fed_moves (hrep : g.Rep) (hne : g.snake ≠ []) {c : Cell} (hon : OnBoard c) (hoff : c ∉ g.snake)
    (hfood : g.food ≠ some c) (d : Cell) :
    Fed { g with direction := d, snake := c :: g.snake.dropLast } := by
  constructor
  · exact hrep.fed.onBoard
  · intro f hf hmem
    rcases List.mem_cons.mp hmem with rfl | hmem
    · exact hfood hf
    · exact hrep.fed.off f hf (List.dropLast_subset _ hmem)
  · constructor
    · intro hnone
      exact absurd (hrep.fed.none_iff.mp hnone _ hon) hoff
    · intro hfull
      have hlast := List.dropLast_append_getLast hne
      have hnodup := hrep.nodup
      rw [← hlast] at hnodup
      have hmem := List.getLast_mem hne
      rcases List.mem_cons.mp (hfull _ (hrep.onBoard _ hmem)) with htarget | hmem'
      · exact absurd (htarget ▸ hmem) hoff
      · exact absurd rfl (List.nodup_append.mp hnodup |>.2.2 _ hmem' _ (List.mem_singleton_self _))

theorem Steps.rep (hrep : g.Rep) (hsteered : g.Steered) (hsnake : g.snake = head :: body)
    (h : Steps choice g head body lives g') : g'.Rep := by
  have hpush : (g.target head :: g.snake).IsChain Adjacent := by
    have hchain := hrep.chain
    rw [hsnake] at hchain ⊢
    exact List.isChain_cons_cons.mpr ⟨adjacent_target hsteered head, hchain⟩
  cases h with
  | dies _ =>
    exact ⟨hrep.nodup, hrep.onBoard, hrep.chain, hrep.length, hrep.fed.onBoard, hrep.fed.off,
      hrep.fed.none_iff⟩
  | eats hon hoff hfood =>
    constructor
    · exact List.nodup_cons.mpr ⟨hoff, hrep.nodup⟩
    · intro c hc
      rcases List.mem_cons.mp hc with rfl | hc
      · exact hon
      · exact hrep.onBoard c hc
    · exact hpush
    · show g.snake.length + 1 = 3 + (g.score + 1)
      rw [hrep.length]
      omega
    · exact spawnFood_fed _ _
  | moves hon hoff hfood =>
    have hlen := hrep.length
    have hne : g.snake ≠ [] := by simp [hsnake]
    constructor
    · exact List.nodup_cons.mpr
        ⟨fun hmem => hoff (List.dropLast_subset _ hmem), hrep.nodup.sublist (List.dropLast_sublist _)⟩
    · intro c hc
      rcases List.mem_cons.mp hc with rfl | hc
      · exact hon
      · exact hrep.onBoard c (List.dropLast_subset _ hc)
    · show (g.target head :: g.snake.dropLast).IsChain Adjacent
      rw [← List.dropLast_cons_of_ne_nil hne]
      exact hpush.dropLast
    · show g.snake.dropLast.length + 1 = 3 + g.score
      rw [List.length_dropLast]
      omega
    · exact hrep.fed_moves hne hon hoff hfood _

theorem not_own_opposite {d : Cell} (h : d ∈ [((0 : ℤ), (-1 : ℤ)), (0, 1), (-1, 0), (1, 0)]) :
    d ≠ -d := by
  simp only [List.mem_cons, List.not_mem_nil, or_false] at h
  rcases h with rfl | rfl | rfl | rfl <;> decide

theorem Steps.steered (hsteered : g.Steered) (h : Steps choice g head body lives g') :
    g'.Steered := by
  have hnext := hsteered.next
  cases h with
  | dies => exact ⟨hnext, hnext, not_own_opposite hnext⟩
  | eats => exact ⟨hnext, hnext, not_own_opposite hnext⟩
  | moves => exact ⟨hnext, hnext, not_own_opposite hnext⟩

theorem Steps.neck (hrep : g.Rep) (hsnake : g.snake = head :: body)
    (h : Steps choice g head body true g') : g'.Neck := by
  have hback : head = g.target head - g.nextDirection := (add_sub_cancel_right _ _).symm
  cases h with
  | eats =>
    refine ⟨g.target head, head, body, ?_, hback⟩
    show g.target head :: g.snake = _
    rw [hsnake]
  | moves =>
    have hlen := hrep.length
    have hbody : body ≠ [] := by
      rintro rfl
      rw [hsnake] at hlen
      simp only [List.length_singleton] at hlen
      omega
    refine ⟨g.target head, head, body.dropLast, ?_, hback⟩
    show g.target head :: g.snake.dropLast = _
    rw [hsnake, List.dropLast_cons_of_ne_nil hbody]

/-! ## Where a snake can hit itself -/

/-- The colour of a cell, on a chequered board. -/
def colour (c : Cell) : ℤ := (c.1 + c.2) % 2

theorem Adjacent.colour_ne {a b : Cell} (h : Adjacent a b) : colour a ≠ colour b := by
  unfold Adjacent at h
  unfold colour
  omega

/-- Not its head, nor its neck, nor the cell after the neck, which has the colour of its head. -/
theorem hits_far (hrep : g.Rep) (hsteered : g.Steered) (hneck : g.Neck)
    (hsnake : g.snake = head :: body) (hhit : g.target head ∈ g.snake) :
    ∃ i, 3 ≤ i ∧ g.snake[i]? = some (g.target head) := by
  obtain ⟨head', neck, rest, hsnake', hback⟩ := hneck
  obtain ⟨rfl, rfl⟩ : head = head' ∧ body = neck :: rest := by simpa [hsnake] using hsnake'
  have hadj := adjacent_target hsteered head
  obtain ⟨i, hi⟩ := List.mem_iff_getElem?.mp hhit
  refine ⟨i, ?_, hi⟩
  by_contra hnear
  have hchain := hrep.chain
  rw [hsnake] at hi hchain
  obtain ⟨hneckadj, hchain⟩ := List.isChain_cons_cons.mp hchain
  have hcases : i = 0 ∨ i = 1 ∨ i = 2 := by omega
  rcases hcases with rfl | rfl | rfl
  · have hself : head = g.target head := by simpa using hi
    exact hadj.colour_ne (congrArg colour hself.symm)
  · have hneck : neck = g.target head := by simpa using hi
    have hsum : head + -g.direction = head + g.nextDirection := by
      rw [← sub_eq_add_neg, ← hback]
      exact hneck
    exact hsteered.forward (add_left_cancel hsum).symm
  · cases rest with
    | nil => simp at hi
    | cons third rest =>
      have hthird : third = g.target head := by simpa using hi
      have hthirdadj := (List.isChain_cons_cons.mp hchain).1
      rw [hthird] at hthirdadj
      have h₁ := hadj.colour_ne
      have h₂ := hneckadj.colour_ne
      have h₃ := hthirdadj.colour_ne
      unfold colour at h₁ h₂ h₃
      omega

/-! ## Runs -/

/-- What holds throughout: while the game is on, the snake's neck is behind its head. -/
structure Play.Inv (p : Play) : Prop where
  rep : p.game.Rep
  steered : p.game.Steered
  neck : p.phase = .playing → p.game.Neck
  safe : ∀ e, p.phase ≠ .raised e

theorem Play.start_inv (choice : Nat) : (Play.start choice).Inv := by
  constructor
  · exact reset_rep choice
  · exact reset_steered choice
  · exact fun _ => reset_neck choice
  · intro e h
    cases h

theorem loopBody_inv (hrep : g.Rep) (hsteered : g.Steered) (hneck : g.Neck) (turn : Turn) :
    (g.loopBody turn).Inv := by
  unfold loopBody
  split
  · exact ⟨hrep, hsteered, fun h => (Phase.noConfusion h), fun e h => Phase.noConfusion h⟩
  have hrep' := keyed_rep hrep turn.key
  have hsteered' := keyed_steered hsteered turn.key
  have hneck' := keyed_neck hneck turn.key
  simp only []
  split
  · obtain ⟨head, neck, body, hsnake, -⟩ := hneck'
    obtain ⟨lives, g', hstep, hsteps⟩ := step_steps turn.choice hsnake
    rw [hstep]
    cases lives with
    | true =>
      exact ⟨hsteps.rep hrep' hsteered' hsnake, hsteps.steered hsteered',
        fun _ => hsteps.neck hrep' hsnake, fun e h => Phase.noConfusion h⟩
    | false =>
      exact ⟨hsteps.rep hrep' hsteered' hsnake, hsteps.steered hsteered',
        fun h => Phase.noConfusion h, fun e h => Phase.noConfusion h⟩
  · exact ⟨hrep', hsteered', fun _ => hneck', fun e h => Phase.noConfusion h⟩

theorem gameOverBody_inv (hrep : g.Rep) (hsteered : g.Steered) (turn : Turn) :
    (g.gameOverBody turn).Inv := by
  unfold gameOverBody
  split
  · exact Play.start_inv turn.choice
  · split
    · exact ⟨hrep, hsteered, fun h => Phase.noConfusion h, fun e h => Phase.noConfusion h⟩
    · exact ⟨hrep, hsteered, fun h => Phase.noConfusion h, fun e h => Phase.noConfusion h⟩

theorem Play.next_inv {p : Play} (h : p.Inv) (turn : Turn) : (p.next turn).Inv := by
  unfold Play.next
  cases hphase : p.phase with
  | playing => exact loopBody_inv h.rep h.steered (h.neck hphase) turn
  | gameOver => exact gameOverBody_inv h.rep h.steered turn
  | exited => exact h
  | raised e => exact absurd hphase (h.safe e)

theorem play_inv (choice : Nat) (turns : List Turn) :
    Always Play.next Play.Inv (Play.start choice) turns :=
  always_induct Play.Inv (Play.start_inv choice) fun _ turn _ h => Play.next_inv h turn

/-- **Every game is well-formed**, after every turn; and a step that the snake does not survive
changes neither the snake nor the score nor the food. -/
theorem play_rep (choice : Nat) (turns : List Turn) :
    Always Play.next (fun p => p.game.Rep) (Play.start choice) turns ∧
    ∀ (g g' : SnakeGame) (choice : Nat), g.step choice = .ok (false, g') →
      g'.snake = g.snake ∧ g'.score = g.score ∧ g'.food = g.food := by
  constructor
  · exact (play_inv choice turns).mono fun p h => h.rep
  · intro g g' choice hstep
    cases hsnake : g.snake with
    | nil =>
      unfold step at hstep
      simp only [hsnake] at hstep
      cases hstep
    | cons head body =>
      obtain ⟨lives, game, hok, hsteps⟩ := step_steps choice hsnake
      rw [hok] at hstep
      cases hstep
      rw [← hsnake]
      exact hsteps.unchanged

/-- At the upper edge, on the way up. -/
def atEdge : SnakeGame where
  snake := [(10, 0), (10, 1), (10, 2)]
  direction := (0, -1)
  nextDirection := (0, -1)
  score := 0
  food := some (0, 0)

theorem play_rep_edge : (Play.start 0).game.Rep ∧
    atEdge.step 0 = .ok (false, atEdge) ∧ atEdge.food = some (0, 0) :=
  ⟨(play_rep 0 []).1 [] (List.prefix_refl _), rfl, ((play_rep 0 []).2 atEdge atEdge 0 rfl).2.2⟩

/-- If a step kills the snake, its head leaves the board, or hits a cell of index 3 or more; a snake
of length 3 has no such cell. -/
def DiesFar (self : SnakeGame) (choice : Nat) : Prop :=
  ∀ g', self.step choice = .ok (false, g') → ∃ head, self.snake.head? = some head ∧
    (¬ OnBoard (self.target head) ∨ ∃ i, 3 ≤ i ∧ self.snake[i]? = some (self.target head)) ∧
    (self.snake.length = 3 → ¬ OnBoard (self.target head))

theorem diesFar (hrep : g.Rep) (hsteered : g.Steered) (hneck : g.Neck) (choice : Nat) :
    g.DiesFar choice := by
  intro g' hstep
  obtain ⟨head, neck, rest, hsnake, -⟩ := id hneck
  obtain ⟨lives, game, hok, hsteps⟩ := step_steps choice hsnake
  rw [hok] at hstep
  cases hstep
  have hwhere : ¬ OnBoard (g.target head) ∨ ∃ i, 3 ≤ i ∧ g.snake[i]? = some (g.target head) := by
    cases hsteps with
    | dies h =>
      rcases h with hoff | hhit
      · exact Or.inl hoff
      · exact Or.inr (hits_far hrep hsteered hneck hsnake hhit)
  refine ⟨head, by rw [hsnake]; rfl, hwhere, ?_⟩
  intro hthree
  rcases hwhere with hoff | ⟨i, hi, hcell⟩
  · exact hoff
  · have hlt := (List.getElem?_eq_some_iff.mp hcell).1
    omega

/-- **The snake never turns back into its own neck**, however many keys come between two steps. -/
theorem play_neck (choice : Nat) (turns : List Turn) :
    Always Play.next (fun p => p.game.nextDirection ≠ -p.game.direction ∧
      (p.phase = .playing → p.game.Neck)) (Play.start choice) turns ∧
    EveryStep Play.next (fun p turn => p.phase = .playing →
      (p.game.keyed turn.key).Neck ∧ (p.game.keyed turn.key).DiesFar turn.choice)
      (Play.start choice) turns := by
  have hinv := play_inv choice turns
  constructor
  · exact hinv.mono fun p h => ⟨h.steered.forward, h.neck⟩
  · intro pre turn hpre hplaying
    have h := hinv.before hpre
    have hneck := keyed_neck (h.neck hplaying) turn.key
    exact ⟨hneck, diesFar (keyed_rep h.rep turn.key) (keyed_steered h.steered turn.key) hneck _⟩

end SnakeGame

end NeoDCT
