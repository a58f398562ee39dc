import NeoDCT.Framework.Lists
import NeoDCT.Lib.Processes
import NeoDCT.Lib.PyNumbers

/-!
# The music player

`MusicPlayer` (apps/MusicPlayer/main.py): a program over the `ui`'s world, the player processes that it
has spawned and its own attributes.  What the kernel does to the processes between two calls, whether
a call raises and which files `scan_music` finds are given by `chance` and `files`; a key is an input
of the `ui` as everywhere.  Every call, and every assignment to the attributes, leaves a `Moment`.

At every moment of every run at most one player is alive, and none while the list of tracks is shown or
once `run` has returned (`run_safe`).

The drawing of the now-playing screen is kept as what it depends on, the elapsed time and `is_paused`,
and as whether it raises: that is a parameter (`Drawing`), and nothing else raises.
-/

namespace NeoDCT

open PyText Interactive Processes

/-! ## The world of the player -/

structure Moment where
  procs : List Status
  currentProcess : Option Nat
  isPaused : Bool
  /-- Whether the list of tracks is on the screen. -/
  listShown : Bool

structure MusicPlayer where
  ui : World
  procs : List Status
  chance : Nat → Chance
  /-- How many of the chances are past. -/
  calls : Nat
  files : Nat → List Text
  scans : Nat
  playlist : List Text
  currentProcess : Option Nat
  isPaused : Bool
  /-- What the now-playing screen has shown: the elapsed time, and whether it was paused. -/
  drawn : List (ℚ × Bool)
  moments : List Moment

instance : Input MusicPlayer := ⟨fun s => Input.remaining s.ui⟩

abbrev Player (α : Type) := Prog PyError MusicPlayer α

namespace MusicPlayer

/-- `MusicPlayer(ui)`. -/
def init (ui : World) (chance : Nat → Chance) (files : Nat → List Text) : MusicPlayer where
  ui := ui
  procs := []
  chance := chance
  calls := 0
  files := files
  scans := 0
  playlist := []
  currentProcess := none
  isPaused := false
  drawn := []
  moments := []

def moment (self : MusicPlayer) (listShown : Bool) : Moment where
  procs := self.procs
  currentProcess := self.currentProcess
  isPaused := self.isPaused
  listShown := listShown

def observed (self : MusicPlayer) (listShown : Bool) : MusicPlayer :=
  { self with moments := self.moments ++ [self.moment listShown] }

/-- A program of the `ui`. -/
def onUi {α : Type} (p : UI α) : Player α := fun self =>
  match p self.ui with
  | .ok a w => .ok a { self with ui := w }
  | .error h w => .error h { self with ui := w }

/-- A system call: what happens to the processes before it, and the call. -/
def system {α : Type} (call : Chance → List Status → α × List Status) : Player α := do
  let self ← get
  let c := self.chance self.calls
  let self := observed { self with procs := settle c self.procs, calls := self.calls + 1 } false
  let (a, procs) := call c self.procs
  set (observed { self with procs := procs } false)
  pure a

/-- `self.current_process = …; self.is_paused = …`. -/
def assign (currentProcess : Option Nat) (isPaused : Bool) : Player Unit := modify fun self =>
  observed { self with currentProcess := currentProcess, isPaused := isPaused } false

/-! ## System calls -/

/-- `subprocess.Popen`; `none` if it raises. -/
def popen : Player (Option Nat) :=
  system fun c procs => if c.fails then (none, procs) else (some procs.length, procs ++ [.running])

/-- `poll() is not None`. -/
def poll (pid : Nat) : Player Bool :=
  system fun _ procs =>
    (!(procs[pid]?.any Status.alive), procs.modify pid Status.reap)

/-- `terminate()`: false if it raises. -/
def terminate (_pid : Nat) : Player Bool := system fun c procs => (!c.fails, procs)

/-- `wait(timeout=0.2)`: false if it raises, as it does when the process is still alive. -/
def wait (pid : Nat) : Player Bool :=
  system fun c procs =>
    if c.fails ∨ procs[pid]?.any Status.alive = true then (false, procs)
    else (true, procs.modify pid Status.reap)

/-- `kill()`. -/
def kill (pid : Nat) : Player Unit :=
  system fun _ procs => ((), procs.modify pid Status.kill)

/-- `os.kill(pid, signal)`, for a signal that does this to a process; there is none of this number once
it was waited for. -/
def osKill (pid : Nat) (signal : Status → Status) : Player Unit := do
  let found ← system fun _ procs =>
    if procs[pid]? = some .reaped then (false, procs) else (true, procs.modify pid signal)
  if found then pure () else throw (.raised .processLookupError)

/-! ## The player's methods -/

/-- `scan_music`. -/
def scanMusic : Player Unit := modify fun self =>
  { self with playlist := self.files self.scans, scans := self.scans + 1 }

/-- The `try` of `stop`: false if it raises. -/
def terminateAndWait (pid : Nat) : Player Bool := do
  if ← terminate pid then wait pid else pure false

/-- `stop`. -/
def stop : Player Unit := do
  let self ← get
  match self.currentProcess with
  | none => pure ()
  | some pid => do
    let ended ← terminateAndWait pid
    if !ended then kill pid
    assign none false

/-- `play_file`: whether it plays. -/
def playFile (_fullPath : Text) : Player Bool := do
  stop
  match ← popen with
  | some pid => do
    assign (some pid) false
    pure true
  | none => pure false

/-- `toggle_pause`. -/
def togglePause : Player Unit := do
  let self ← get
  match self.currentProcess with
  | none => pure ()
  | some pid =>
    if self.isPaused then do
      osKill pid Status.continue
      assign (some pid) false
    else do
      osKill pid Status.stop
      assign (some pid) true

/-- The local variables of `run_now_playing`. -/
structure NowPlaying where
  startTime : ℚ
  pausedAt : ℚ := 0
  totalPausedDuration : ℚ := 0
  needsRedraw : Bool := true

/-- "Calc Time": `current_elapsed`, and the variables after it.  Every difference and sum is a `float`. -/
def NowPlaying.elapsed (t : NowPlaying) (isPaused : Bool) (now : ℚ) : ℚ × NowPlaying :=
  if isPaused then
    let t := if t.pausedAt = 0 then { t with pausedAt := now } else t
    (toFloat (toFloat (t.pausedAt - t.startTime) - t.totalPausedDuration), t)
  else
    let t :=
      if t.pausedAt ≠ 0 then
        { t with
          totalPausedDuration := toFloat (t.totalPausedDuration + toFloat (now - t.pausedAt))
          pausedAt := 0 }
      else t
    (toFloat (toFloat (now - t.startTime) - t.totalPausedDuration), t)

/-- What drawing a file's screen raises, at an elapsed time, paused or not.  Pillow may refuse a progress
bar that would end before it starts. -/
abbrev Drawing := Text → ℚ → Bool → Option PyError

/-- "DRAW", if it is needed. -/
def drawNowPlaying (draws : Drawing) (filepath : Text) (t : NowPlaying) (elapsed : ℚ) :
    Player NowPlaying :=
  if t.needsRedraw then do
    let self ← get
    match draws filepath elapsed self.isPaused with
    | some e => throw (.raised e)
    | none => do
      set { self with drawn := self.drawn ++ [(elapsed, self.isPaused)] }
      pure { t with needsRedraw := false }
  else pure t

/-- "Input". -/
def nowPlayingKey (t : NowPlaying) : Option Nat → Player (NowPlaying ⊕ Unit)
  | none => pure (.inl { t with needsRedraw := true })
  | some key => do
    let t := { t with needsRedraw := true }
    if key = 14 then do
      stop
      pure (.inr ())
    else if key = 28 then do
      togglePause
      pure (.inl t)
    else pure (.inl t)

/-- An iteration of `run_now_playing`. -/
def nowPlayingBody (draws : Drawing) (filepath : Text) (t : NowPlaying) :
    Player (NowPlaying ⊕ Unit) := do
  let self ← get
  match self.currentProcess with
  | none => throw (.raised .attributeError)
  | some pid =>
    if ← poll pid then do
      stop
      pure (.inr ())
    else do
      let now ← onUi now
      let (elapsed, t) := t.elapsed self.isPaused now
      let t ← drawNowPlaying draws filepath t elapsed
      nowPlayingKey t (← onUi readKey)

/-- `run_now_playing`. -/
def runNowPlaying (draws : Drawing) (filepath : Text) : Player Unit := do
  let startTime ← onUi do
    paint [fillBox 0 0 240 240 "black", drawText 80 100 "Loading...".toList .n "white"]
    present
    now
  loop (nowPlayingBody draws filepath) { startTime := startTime }

/-- `os.path.basename`. -/
def basename (p : Text) : Text := (p.reverse.takeWhile (· ≠ '/')).reverse

/-- "No Music Found". -/
def noMusic (ui : Ui) : UI Unit := do
  paint [fillBox 0 0 240 210 "black", drawText 10 80 "No Music Found".toList .n "white",
    drawText 10 110 "Add mp3s to:".toList .s "gray", drawText 10 130 "/User/music".toList .s "gray"]
  SoftKeyBar.app.update ui (some "Exit".toList) true
  loop (fun _ : Unit => do
    let k ← waitForKey
    if k = 14 ∨ k = 28 then pure (.inr ()) else pure (.inl ())) ()

/-- The list of tracks, while it is on the screen. -/
def showTracks (ui : Ui) (displayList : List Text) : Player (Option Nat) := do
  let vlist : VerticalList :=
    { title := "Music".toList, items := displayList, appId := "4".toList }
  modify fun self => self.observed true
  let (sel, _) ← onUi (vlist.showModal ui)
  modify fun self => self.observed true
  pure sel

/-- An iteration of `run`. -/
def runBody (ui : Ui) (draws : Drawing) (_ : Unit) : Player (Unit ⊕ Unit) := do
  scanMusic
  let self ← get
  if self.playlist = [] then do
    onUi (noMusic ui)
    pure (.inr ())
  else do
    match ← showTracks ui (self.playlist.map basename) with
    | none => pure (.inr ())
    | some sel =>
      match self.playlist[sel]? with
      | none => throw (.raised .indexError)
      | some fullPath => do
        if ← playFile fullPath then runNowPlaying draws fullPath
        pure (.inl ())

/-- `run`. -/
def run (ui : Ui) (draws : Drawing) : Player Unit := loop (runBody ui draws) ()

/-! ## What holds at every moment -/

/-- At most one player is alive, none while the list of tracks is shown, and `is_paused` is true only
while `current_process` is set. -/
structure Safe (m : Moment) : Prop where
  one : ∀ (p q : Nat) (st st' : Status), m.procs[p]? = some st → m.procs[q]? = some st' →
    st.alive = true → st'.alive = true → p = q
  list : m.listShown = true → ∀ (p : Nat) (st : Status), m.procs[p]? = some st → st.alive = false
  paused : m.isPaused = true → m.currentProcess ≠ none

/-- Every moment so far was safe, and the attributes are in order. -/
structure Sound (s : MusicPlayer) : Prop where
  moments : ∀ m ∈ s.moments, Safe m
  paused : s.isPaused = true → s.currentProcess ≠ none

theorem not_alive {procs : List Status} (h : OnlyAlive none procs) (p : Nat) (st : Status)
    (hp : procs[p]? = some st) : st.alive = false := by
  by_contra halive
  cases h p st hp (Bool.not_eq_false _ ▸ halive)

theorem Sound.observed {s : MusicPlayer} {o : Option Nat} {listShown : Bool} (h : s.Sound)
    (halive : OnlyAlive o s.procs) (hlist : listShown = true → o = none) :
    (s.observed listShown).Sound := by
  refine ⟨?_, h.paused⟩
  intro m hm
  rcases List.mem_append.mp hm with hm | hm
  · exact h.moments m hm
  · obtain rfl := List.mem_singleton.mp hm
    refine ⟨?_, ?_, h.paused⟩
    · intro p q st st' hp hq hst hst'
      exact halive.unique hp hq hst hst'
    · intro hshown
      obtain rfl := hlist hshown
      exact not_alive halive

/-- A system call leaves the attributes and the screen alone. -/
structure Called (s s' : MusicPlayer) : Prop where
  currentProcess : s'.currentProcess = s.currentProcess
  isPaused : s'.isPaused = s.isPaused
  ui : s'.ui = s.ui
  playlist : s'.playlist = s.playlist
  sound : s'.Sound

/-- **A system call**, of which it is known which process may be alive after it. -/
theorem system_spec {α : Type} {call : Chance → List Status → α × List Status} {o : Option Nat}
    (o' : α → Option Nat) {s : MusicPlayer} (hs : s.Sound) (halive : OnlyAlive o s.procs)
    (hcall : ∀ c procs, OnlyAlive o procs → OnlyAlive (o' (call c procs).1) (call c procs).2)
    {E : Halt PyError → MusicPlayer → Prop} :
    wp (system call) (fun a s' => Called s s' ∧ OnlyAlive (o' a) s'.procs ∧
      ∃ c, a = (call c (settle c s.procs)).1 ∧ s'.procs = (call c (settle c s.procs)).2) E s := by
  have hsettled := halive.settle (s.chance s.calls)
  have hdone := hcall (s.chance s.calls) _ hsettled
  have hsound₁ : Sound (observed { s with
      procs := settle (s.chance s.calls) s.procs
      calls := s.calls + 1 } false) :=
    Sound.observed ⟨hs.moments, hs.paused⟩ hsettled fun h => Bool.noConfusion h
  refine ⟨⟨rfl, rfl, rfl, rfl, ?_⟩, hdone, s.chance s.calls, rfl, rfl⟩
  exact Sound.observed ⟨hsound₁.moments, hs.paused⟩ hdone fun h => Bool.noConfusion h

/-- No player is alive. -/
structure Idle (s : MusicPlayer) : Prop where
  sound : s.Sound
  alive : OnlyAlive none s.procs
  currentProcess : s.currentProcess = none

/-- No player is alive but the current one. -/
structure Playing (pid : Nat) (s : MusicPlayer) : Prop where
  sound : s.Sound
  alive : OnlyAlive (some pid) s.procs
  currentProcess : s.currentProcess = some pid

theorem Playing.called {pid : Nat} {s s' : MusicPlayer} (h : Playing pid s) (hc : Called s s')
    (halive : OnlyAlive (some pid) s'.procs) : Playing pid s' :=
  ⟨hc.sound, halive, hc.currentProcess.trans h.currentProcess⟩

theorem Playing.ui {pid : Nat} {s : MusicPlayer} (h : Playing pid s) (w : World) :
    Playing pid { s with ui := w } :=
  ⟨⟨h.sound.moments, h.sound.paused⟩, h.alive, h.currentProcess⟩

theorem Idle.ui {s : MusicPlayer} (h : Idle s) (w : World) : Idle { s with ui := w } :=
  ⟨⟨h.sound.moments, h.sound.paused⟩, h.alive, h.currentProcess⟩

theorem assign_spec {s : MusicPlayer} {o : Option Nat} (hs : s.Sound) (halive : OnlyAlive o s.procs)
    {currentProcess : Option Nat} {isPaused : Bool} (hp : isPaused = true → currentProcess ≠ none)
    {E : Halt PyError → MusicPlayer → Prop} :
    wp (assign currentProcess isPaused) (fun _ s' => s'.Sound ∧ s'.procs = s.procs ∧
      s'.currentProcess = currentProcess ∧ s'.isPaused = isPaused ∧ s'.ui = s.ui) E s := by
  have hsound : Sound (observed { s with
      currentProcess := currentProcess
      isPaused := isPaused } false) :=
    Sound.observed ⟨hs.moments, hp⟩ halive fun h => Bool.noConfusion h
  exact ⟨hsound, rfl, rfl, rfl, rfl⟩

theorem ended_of_not_any {procs : List Status} {pid : Nat} (h : ¬ procs[pid]?.any Status.alive = true)
    (st : Status) (hst : procs[pid]? = some st) : st.alive = false := by
  rw [hst] at h
  simpa using h

/-- Reaping changes nothing for who is alive. -/
theorem reap_alive {procs : List Status} {pid : Nat} {o : Option Nat} (h : OnlyAlive o procs) :
    OnlyAlive o (procs.modify pid Status.reap) :=
  h.modify fun st hst => (alive_reap st).symm.trans hst

/-- A child that was waited for has ended. -/
theorem wait_spec {pid : Nat} {s : MusicPlayer} (h : Playing pid s)
    {E : Halt PyError → MusicPlayer → Prop} :
    wp (wait pid) (fun ended s' => Playing pid s' ∧ s'.ui = s.ui ∧
      (ended = true → OnlyAlive none s'.procs)) E s := by
  refine wp_mono (system_spec (fun ended => if ended then none else some pid) h.sound h.alive ?_
    (E := E)) ?_ fun _ _ h => h
  · intro c procs halive
    by_cases hfails : c.fails = true ∨ procs[pid]?.any Status.alive = true
    · rw [if_pos hfails]
      exact halive
    · rw [if_neg hfails]
      exact reap_alive (halive.ended (ended_of_not_any (not_or.mp hfails).2))
  · rintro ended s' ⟨hc, halive, -⟩
    cases ended with
    | true => exact ⟨h.called hc (halive.some _), hc.ui, fun _ => halive⟩
    | false => exact ⟨h.called hc halive, hc.ui, fun h => Bool.noConfusion h⟩

theorem terminate_spec {pid : Nat} {s : MusicPlayer} (h : Playing pid s)
    {E : Halt PyError → MusicPlayer → Prop} :
    wp (terminate pid) (fun _ s' => Playing pid s' ∧ s'.ui = s.ui) E s := by
  refine wp_mono (system_spec (fun _ => some pid) h.sound h.alive (fun _ _ halive => halive) (E := E)) ?_
    fun _ _ h => h
  rintro _ s' ⟨hc, halive, -⟩
  exact ⟨h.called hc halive, hc.ui⟩

theorem kill_spec {pid : Nat} {s : MusicPlayer} (h : Playing pid s)
    {E : Halt PyError → MusicPlayer → Prop} :
    wp (kill pid) (fun _ s' => Playing pid s' ∧ s'.ui = s.ui ∧ OnlyAlive none s'.procs) E s := by
  refine wp_mono (system_spec (fun _ => none) h.sound h.alive (fun _ _ halive => halive.kill) (E := E)) ?_
    fun _ _ h => h
  rintro _ s' ⟨hc, halive, -⟩
  exact ⟨h.called hc (halive.some _), hc.ui, halive⟩

theorem terminateAndWait_spec {pid : Nat} {s : MusicPlayer} (h : Playing pid s)
    {E : Halt PyError → MusicPlayer → Prop} :
    wp (terminateAndWait pid) (fun ended s' => Playing pid s' ∧ s'.ui = s.ui ∧
      (ended = true → OnlyAlive none s'.procs)) E s := by
  refine wp_seq (terminate_spec h) (fun _ _ h => h) ?_
  rintro sent s₁ ⟨h₁, hui₁⟩
  cases sent with
  | true =>
    refine wp_mono (wait_spec h₁) ?_ fun _ _ h => h
    rintro ended s₂ ⟨h₂, hui₂, hended⟩
    exact ⟨h₂, hui₂.trans hui₁, hended⟩
  | false => exact ⟨h₁, hui₁, fun h => Bool.noConfusion h⟩

/-- **`stop`**: however its calls fail, no player is alive after it. -/
theorem stop_spec {s : MusicPlayer} (hs : s.Sound) (halive : OnlyAlive s.currentProcess s.procs)
    {E : Halt PyError → MusicPlayer → Prop} :
    wp stop (fun _ s' => Idle s' ∧ s'.ui = s.ui) E s := by
  unfold stop
  rw [wp_bind, wp_get]
  cases hpid : s.currentProcess with
  | none =>
    rw [hpid] at halive
    exact ⟨⟨hs, halive, hpid⟩, rfl⟩
  | some pid =>
    rw [hpid] at halive
    have hplaying : Playing pid s := ⟨hs, halive, hpid⟩
    have hassign : ∀ s₁, s₁.Sound → OnlyAlive none s₁.procs → s₁.ui = s.ui →
        wp (assign none false) (fun _ s' => Idle s' ∧ s'.ui = s.ui) E s₁ := by
      intro s₁ hs₁ halive₁ hui₁
      refine wp_mono (assign_spec hs₁ halive₁ fun h => Bool.noConfusion h) ?_ fun _ _ h => h
      rintro _ s₂ ⟨hsound, hprocs, hcurrent, -, hui₂⟩
      exact ⟨⟨hsound, by rw [hprocs]; exact halive₁, hcurrent⟩, hui₂.trans hui₁⟩
    refine wp_seq (terminateAndWait_spec hplaying) (fun _ _ h => h) ?_
    rintro ended s₁ ⟨h₁, hui₁, hended⟩
    cases ended with
    | true => exact hassign s₁ h₁.sound (hended rfl) hui₁
    | false =>
      refine wp_seq (kill_spec h₁) (fun _ _ h => h) ?_
      rintro _ s₂ ⟨h₂, hui₂, halive₂⟩
      exact hassign s₂ h₂.sound halive₂ (hui₂.trans hui₁)

/-- **`play_file`**: the old player is gone before there is a new one. -/
theorem playFile_spec {s : MusicPlayer} (hs : s.Sound) (halive : OnlyAlive s.currentProcess s.procs)
    (fullPath : Text) {E : Halt PyError → MusicPlayer → Prop} :
    wp (playFile fullPath)
      (fun plays s' => s'.ui = s.ui ∧ if plays then ∃ pid, Playing pid s' else Idle s') E s := by
  unfold playFile
  refine wp_seq (stop_spec hs halive) (fun _ _ h => h) ?_
  rintro _ s₁ ⟨h₁, hui₁⟩
  have hcall : ∀ (c : Chance) (procs : List Status), OnlyAlive none procs →
      OnlyAlive (if c.fails then (none, procs) else (some procs.length, procs ++ [.running])).1
        (if c.fails then (none, procs) else (some procs.length, procs ++ [.running])).2 := by
    intro c procs halive
    split
    · exact halive
    · exact halive.spawn
  refine wp_seq (system_spec id h₁.sound h₁.alive hcall) (fun _ _ h => h) ?_
  rintro spawned s₂ ⟨hc, halive₂, -⟩
  cases spawned with
  | none => exact ⟨hc.ui.trans hui₁, hc.sound, halive₂, hc.currentProcess.trans h₁.currentProcess⟩
  | some pid =>
    refine wp_seq (assign_spec hc.sound halive₂ fun h => Bool.noConfusion h) (fun _ _ h => h) ?_
    rintro _ s₃ ⟨hsound, hprocs, hcurrent, -, hui₃⟩
    refine ⟨hui₃.trans (hc.ui.trans hui₁), pid, hsound, ?_, hcurrent⟩
    rw [hprocs]
    exact halive₂

theorem onUi_spec {α : Type} {p : UI α} {Q : α → World → Prop} {E : Halt PyError → World → Prop}
    {s : MusicPlayer} (h : wp p Q E s.ui) : wp (onUi p)
      (fun a s' => ∃ w, Q a w ∧ s' = { s with ui := w })
      (fun e s' => ∃ w, E e w ∧ s' = { s with ui := w }) s := by
  unfold wp at h ⊢
  unfold onUi
  cases hp : p s.ui with
  | ok a w =>
    rw [hp] at h
    exact ⟨w, h, rfl⟩
  | error e w =>
    rw [hp] at h
    exact ⟨w, h, rfl⟩

/-- The current player was not waited for, so it can be signalled. -/
def NotReaped (pid : Nat) (s : MusicPlayer) : Prop := s.procs[pid]? ≠ some .reaped

theorem poll_spec {pid : Nat} {s : MusicPlayer} (h : Playing pid s)
    {E : Halt PyError → MusicPlayer → Prop} :
    wp (poll pid) (fun ended s' => Playing pid s' ∧ s'.ui = s.ui ∧
      (ended = false → NotReaped pid s')) E s := by
  refine wp_mono (system_spec (fun _ => some pid) h.sound h.alive
    (fun _ _ halive => reap_alive halive) (E := E)) ?_ fun _ _ h => h
  rintro ended s' ⟨hc, halive, c, hended, hprocs⟩
  refine ⟨h.called hc halive, hc.ui, ?_⟩
  rintro rfl
  unfold NotReaped
  rw [hprocs]
  show (List.modify _ pid Status.reap)[pid]? ≠ _
  rw [List.getElem?_modify]
  cases hst : (settle c s.procs)[pid]? with
  | none => simp
  | some st =>
    rw [hst] at hended
    have halive : st.alive = true := by simpa using hended
    cases st with
    | running => simp [Status.reap]
    | stopped => simp [Status.reap]
    | zombie => cases halive
    | reaped => cases halive

/-- A player that was not waited for is there. -/
theorem osKill_spec {pid : Nat} {s : MusicPlayer} (h : Playing pid s) (hr : NotReaped pid s)
    {signal : Status → Status} (hsignal : ∀ st, (signal st).alive = true → st.alive = true)
    {E : Halt PyError → MusicPlayer → Prop} :
    wp (osKill pid signal) (fun _ s' => Playing pid s' ∧ s'.ui = s.ui) E s := by
  have hcall : ∀ (_ : Chance) (procs : List Status), OnlyAlive (some pid) procs →
      OnlyAlive (some pid) (if procs[pid]? = some .reaped then (false, procs)
        else (true, procs.modify pid signal)).2 := by
    intro c procs halive
    split
    · exact halive
    · exact halive.modify hsignal
  refine wp_seq (system_spec (fun _ => some pid) h.sound h.alive hcall) (fun _ _ h => h) ?_
  rintro found s' ⟨hc, halive, c, hfound, -⟩
  have hthere : (settle c s.procs)[pid]? ≠ some .reaped := not_reaped_settle hr
  rw [if_neg hthere] at hfound
  subst hfound
  exact ⟨h.called hc halive, hc.ui⟩

theorem togglePause_spec {pid : Nat} {s : MusicPlayer} (h : Playing pid s) (hr : NotReaped pid s)
    {E : Halt PyError → MusicPlayer → Prop} :
    wp togglePause (fun _ s' => Playing pid s' ∧ s'.ui = s.ui) E s := by
  have hassign : ∀ (isPaused : Bool) s₁, Playing pid s₁ → s₁.ui = s.ui →
      wp (assign (some pid) isPaused) (fun _ s' => Playing pid s' ∧ s'.ui = s.ui) E s₁ := by
    intro isPaused s₁ h₁ hui₁
    refine wp_mono (assign_spec h₁.sound h₁.alive fun _ => Option.some_ne_none pid) ?_ fun _ _ h => h
    rintro _ s₂ ⟨hsound, hprocs, hcurrent, -, hui₂⟩
    exact ⟨⟨hsound, by rw [hprocs]; exact h₁.alive, hcurrent⟩, hui₂.trans hui₁⟩
  unfold togglePause
  rw [wp_bind, wp_get, h.currentProcess]
  simp only []
  split
  · refine wp_seq (osKill_spec h hr fun _ => alive_of_continue) (fun _ _ h => h) ?_
    rintro _ s₁ ⟨h₁, hui₁⟩
    exact hassign false s₁ h₁ hui₁
  · refine wp_seq (osKill_spec h hr fun _ => alive_of_stop) (fun _ _ h => h) ?_
    rintro _ s₁ ⟨h₁, hui₁⟩
    exact hassign true s₁ h₁ hui₁

/-- A run that does not return waits for a key, or its drawing raised; all was safe until then. -/
def Ended (draws : Drawing) (h : Halt PyError) (s : MusicPlayer) : Prop :=
  (∀ e, h = .raised e → ∃ filepath elapsed isPaused, draws filepath elapsed isPaused = some e) ∧ s.Sound

theorem Ended.waiting {draws : Drawing} {s : MusicPlayer} (h : s.Sound) : Ended draws .waiting s := by
  refine ⟨?_, h⟩
  intro e he
  cases he

theorem drawNowPlaying_spec (draws : Drawing) (filepath : Text) {pid : Nat} {s : MusicPlayer}
    (h : Playing pid s) (hr : NotReaped pid s) (t : NowPlaying) (elapsed : ℚ) :
    wp (drawNowPlaying draws filepath t elapsed)
      (fun _ s' => Playing pid s' ∧ NotReaped pid s' ∧ s'.ui = s.ui) (Ended draws) s := by
  unfold drawNowPlaying
  split
  · rw [wp_bind, wp_get]
    cases hdraw : draws filepath elapsed s.isPaused with
    | some e =>
      refine ⟨?_, h.sound⟩
      rintro _ ⟨⟩
      exact ⟨filepath, elapsed, s.isPaused, hdraw⟩
    | none => exact ⟨⟨⟨h.sound.moments, h.sound.paused⟩, h.alive, h.currentProcess⟩, hr, rfl⟩
  · exact ⟨h, hr, rfl⟩

/-- An iteration of `run_now_playing` goes on with the same player, or has stopped it. -/
def Continues (pid : Nat) (w : World) (r : NowPlaying ⊕ Unit) (s' : MusicPlayer) : Prop :=
  r.elim (fun _ => Playing pid s' ∧ s'.ui = w) fun _ => Idle s' ∧ s'.ui = w

theorem nowPlayingKey_spec {pid : Nat} {s : MusicPlayer} (h : Playing pid s) (hr : NotReaped pid s)
    (t : NowPlaying) (key : Option Nat) {E : Halt PyError → MusicPlayer → Prop} :
    wp (nowPlayingKey t key) (Continues pid s.ui) E s := by
  cases key with
  | none => exact ⟨h, rfl⟩
  | some key =>
    unfold nowPlayingKey
    by_cases h14 : key = 14
    · simp only [h14, if_true]
      refine wp_seq (stop_spec h.sound (by rw [h.currentProcess]; exact h.alive))
        (fun _ _ h => h) ?_
      rintro _ s' ⟨hidle, hui⟩
      exact ⟨hidle, hui⟩
    · simp only [if_neg h14]
      split
      · refine wp_seq (togglePause_spec h hr) (fun _ _ h => h) ?_
        rintro _ s' ⟨h', hui⟩
        exact ⟨h', hui⟩
      · exact ⟨h, rfl⟩

/-- It has read input when it goes on. -/
theorem nowPlayingBody_spec (draws : Drawing) (filepath : Text) {pid : Nat} {s : MusicPlayer}
    (h : Playing pid s) (t : NowPlaying) :
    wp (nowPlayingBody draws filepath t)
      (fun r s' => r.elim (fun _ => Playing pid s' ∧ Input.remaining s' < Input.remaining s)
        fun _ => Idle s' ∧ Input.remaining s' ≤ Input.remaining s)
      (Ended draws) s := by
  unfold nowPlayingBody
  rw [wp_bind, wp_get, h.currentProcess]
  refine wp_seq (poll_spec h) (fun _ _ h => h) ?_
  rintro ended s₁ ⟨h₁, hui₁, hr₁⟩
  cases ended with
  | true =>
    refine wp_seq (stop_spec h₁.sound (by rw [h₁.currentProcess]; exact h₁.alive)) (fun _ _ h => h) ?_
    rintro _ s₂ ⟨hidle, hui₂⟩
    refine ⟨hidle, ?_⟩
    show Input.remaining s₂.ui ≤ Input.remaining s.ui
    rw [hui₂, hui₁]
  | false =>
    refine wp_seq (onUi_spec (now_spec s₁.ui (E := fun _ _ => False))) ?_ ?_
    · rintro _ _ ⟨_, hfalse, -⟩
      exact hfalse.elim
    rintro time _ ⟨_, ⟨-, rfl⟩, rfl⟩
    refine wp_seq (drawNowPlaying_spec draws filepath h₁ (hr₁ rfl) _ _) (fun _ _ h => h) ?_
    rintro t' s₃ ⟨h₃, hr₃, hui₃⟩
    refine wp_seq (onUi_spec (readKey_spec s₃.ui)) ?_ ?_
    · rintro _ _ ⟨w, ⟨rfl, -⟩, rfl⟩
      exact .waiting (h₃.ui w).sound
    · rintro key _ ⟨w, hreads, rfl⟩
      have hlt : Input.remaining w < Input.remaining s.ui := by
        rw [← hui₁, ← hui₃]
        exact hreads.remaining
      refine wp_mono (nowPlayingKey_spec (h₃.ui w) hr₃ t' key) ?_ fun _ _ h => h
      rintro (t'' | u) s₅ ⟨h₅, hui₅⟩
      · refine ⟨h₅, ?_⟩
        show Input.remaining s₅.ui < Input.remaining s.ui
        rw [hui₅]
        exact hlt
      · refine ⟨h₅, ?_⟩
        show Input.remaining s₅.ui ≤ Input.remaining s.ui
        rw [hui₅]
        exact hlt.le

/-- The screen before the loop, and the time when it is left. -/
theorem loading_spec (w : World) {E : Halt PyError → World → Prop} :
    wp (do
      paint [fillBox 0 0 240 240 "black", drawText 80 100 "Loading...".toList .n "white"]
      present
      now : UI ℚ) (fun t w' => Drawn w w' ∧ t = w'.io.clock) E w := by
  refine wp_seq (paint_spec _ w) (fun _ _ h => h) ?_
  intro _ w₁ hd₁
  refine wp_seq (present_spec w₁) (fun _ _ h => h) ?_
  intro _ w₂ hd₂
  exact ⟨hd₁.trans hd₂, rfl⟩

/-- **`run_now_playing`** returns only when no player is alive any more. -/
theorem runNowPlaying_spec (draws : Drawing) (filepath : Text) {pid : Nat} {s : MusicPlayer}
    (h : Playing pid s) :
    wp (runNowPlaying draws filepath)
      (fun _ s' => Idle s' ∧ Input.remaining s' ≤ Input.remaining s)
      (Ended draws) s := by
  refine wp_seq (onUi_spec (E := fun _ _ => False) (loading_spec s.ui)) ?_ ?_
  · rintro _ _ ⟨_, hfalse, -⟩
    exact hfalse.elim
  rintro startTime _ ⟨w, ⟨hd, -⟩, rfl⟩
  refine wp_loop (fun _ s' => Playing pid s' ∧ Input.remaining s' ≤ Input.remaining s)
    ⟨h.ui w, ?_⟩ ?_
  · show w.io.input.length ≤ s.ui.io.input.length
    rw [hd.input]
  · rintro t s₁ ⟨h₁, hle⟩
    refine wp_mono (nowPlayingBody_spec draws filepath h₁ t) ?_ fun _ _ h => h
    rintro (t' | u) s₂ ⟨h₂, hrem⟩
    · exact ⟨⟨h₂, hrem.le.trans hle⟩, hrem⟩
    · exact ⟨h₂, hrem.trans hle⟩

theorem noMusic_spec (ui : Ui) (w : World) :
    wp (noMusic ui) (fun _ _ => True) (fun e _ => e = .waiting) w := by
  unfold noMusic
  refine wp_seq (paint_spec _ w) (fun _ _ h => h) ?_
  intro _ w₁ _
  refine wp_seq (SoftKeyBar.update_spec ui _ _ _ w₁) (fun _ _ h => h) ?_
  intro _ w₂ _
  refine wp_loop (fun _ _ => True) trivial ?_
  rintro _ w₃ -
  refine wp_seq (waitForKey_spec w₃) (fun _ _ h => h.1) ?_
  rintro key w₄ ⟨hr, -⟩
  split
  · exact trivial
  · refine ⟨trivial, ?_⟩
    exact hr.remaining

/-- A list that is not empty returns -1 or one of its indices. -/
theorem tracks_spec (ui : Ui) {vlist : VerticalList} (hsel : vlist.selectedIndex < vlist.items.length)
    (w : World) : wp (vlist.showModal ui)
      (fun r w' => Input.remaining w' < Input.remaining w ∧ ∀ i, r.1 = some i → i < vlist.items.length)
      (fun e _ => e = .waiting) w := by
  refine wp_mono (VerticalList.showModal_spec ui vlist w) ?_ fun _ _ h => h.1
  rintro ⟨r, l⟩ _ ⟨⟨ks, key, -, hfeed, hend⟩, -, w₁, hr, rfl⟩
  refine ⟨hr.remaining, ?_⟩
  rintro i hi
  obtain rfl : r = some i := hi
  have hreturned : feed VerticalList.onKey vlist (ks ++ [key]) = .inr (some i, []) := by
    rw [feed_snoc hfeed, hend]
  exact VerticalList.index_lt hsel hreturned

theorem Idle.observed {s : MusicPlayer} (h : Idle s) (listShown : Bool) :
    Idle (s.observed listShown) :=
  ⟨h.sound.observed h.alive fun _ => rfl, h.alive, h.currentProcess⟩

theorem showTracks_spec (ui : Ui) (draws : Drawing) {s : MusicPlayer} (h : Idle s) {displayList : List Text}
    (hne : displayList ≠ []) :
    wp (showTracks ui displayList)
      (fun sel s' => Idle s' ∧ s'.playlist = s.playlist ∧ Input.remaining s' < Input.remaining s ∧
        ∀ i, sel = some i → i < displayList.length)
      (Ended draws) s := by
  unfold showTracks
  have hsel : (0 : Nat) < displayList.length := List.length_pos_of_ne_nil hne
  have h₁ : Idle (s.observed true) := h.observed true
  refine wp_seq (R := fun _ s₁ => s₁ = s.observed true) rfl (fun _ _ h => h) ?_
  rintro _ _ rfl
  refine wp_seq (onUi_spec (tracks_spec ui hsel _)) ?_ ?_
  · rintro _ _ ⟨w, rfl, rfl⟩
    exact .waiting (h₁.ui w).sound
  · rintro ⟨r, l⟩ _ ⟨w, ⟨hlt, hindex⟩, rfl⟩
    exact ⟨(h₁.ui w).observed true, rfl, hlt, hindex⟩

/-- **An iteration of `run`** starts without a player, and ends without one. -/
theorem runBody_spec (ui : Ui) (draws : Drawing) (u : Unit) {s : MusicPlayer} (h : Idle s) :
    wp (runBody ui draws u)
      (fun r s' => Idle s' ∧ r.elim (fun _ => Input.remaining s' < Input.remaining s) fun _ => True)
      (Ended draws) s := by
  unfold runBody
  have h₁ : Idle { s with playlist := s.files s.scans, scans := s.scans + 1 } :=
    ⟨⟨h.sound.moments, h.sound.paused⟩, h.alive, h.currentProcess⟩
  refine wp_seq (R := fun _ s₁ => Idle s₁ ∧ s₁.ui = s.ui) ⟨h₁, rfl⟩ (fun _ _ h => h) ?_
  rintro _ s₁ ⟨h₁, hui₁⟩
  rw [wp_bind, wp_get]
  by_cases hnil : s₁.playlist = []
  · rw [if_pos hnil]
    refine wp_seq (onUi_spec (noMusic_spec ui s₁.ui)) ?_ ?_
    · rintro _ _ ⟨w, rfl, rfl⟩
      exact .waiting (h₁.ui w).sound
    · rintro _ _ ⟨w, -, rfl⟩
      exact ⟨h₁.ui w, trivial⟩
  rw [if_neg hnil]
  refine wp_seq (showTracks_spec ui draws h₁ (by simpa using hnil)) (fun _ _ h => h) ?_
  rintro sel s₂ ⟨h₂, hplaylist, hlt, hindex⟩
  cases sel with
  | none => exact ⟨h₂, trivial⟩
  | some i =>
    have hi : i < s₁.playlist.length := by simpa using hindex i rfl
    simp only [List.getElem?_eq_getElem hi]
    refine wp_seq (playFile_spec h₂.sound (by rw [h₂.currentProcess]; exact h₂.alive) _)
      (fun _ _ h => h) ?_
    rintro plays s₃ ⟨hui₃, h₃⟩
    have hlt₃ : Input.remaining s₃ < Input.remaining s := by
      show Input.remaining s₃.ui < Input.remaining s.ui
      rw [hui₃, ← hui₁]
      exact hlt
    cases plays with
    | false => exact ⟨h₃, hlt₃⟩
    | true =>
      obtain ⟨pid, h₃⟩ := h₃
      refine wp_seq (runNowPlaying_spec draws _ h₃) (fun _ _ h => h) ?_
      rintro _ s₄ ⟨h₄, hle⟩
      exact ⟨h₄, hle.trans_lt hlt₃⟩

/-- **At every moment of every run** at most one player is alive, and none while the list of tracks is
shown, and `is_paused` is true only while `current_process` is set; when `run` returns no player is
alive, and it raises only what its drawing raises. -/
theorem run_safe (ui : Ui) (draws : Drawing) (w : World) (chance : Nat → Chance)
    (files : Nat → List Text) :
    (∀ m ∈ (finalState (run ui draws) (init w chance files)).moments, Safe m) ∧
    (returned? (run ui draws) (init w chance files) = some () →
      OnlyAlive none (finalState (run ui draws) (init w chance files)).procs) ∧
    ∀ e, raised? (run ui draws) (init w chance files) = some e →
      ∃ filepath elapsed isPaused, draws filepath elapsed isPaused = some e := by
  have hinit : Idle (init w chance files) := by
    refine ⟨⟨?_, fun h => Bool.noConfusion h⟩, .nil none, rfl⟩
    intro m hm
    cases hm
  have hrun : wp (run ui draws) (fun _ s' => Idle s') (Ended draws) (init w chance files) := by
    refine wp_loop (fun _ s' => Idle s') hinit ?_
    intro u s h
    refine wp_mono (runBody_spec ui draws u h) ?_ fun _ _ h => h
    rintro (u' | u') s' ⟨h', hlt⟩
    · exact ⟨h', hlt⟩
    · exact h'
  rcases wp_cases hrun with ⟨_, hret, hraise, h⟩ | ⟨e, hret, hraise, hended, h⟩
  · refine ⟨h.sound.moments, fun _ => h.alive, ?_⟩
    rw [hraise]
    intro e he
    cases he
  · refine ⟨h.moments, ?_, ?_⟩
    · rw [hret]
      intro h
      cases h
    · rw [hraise]
      intro err herr
      cases e with
      | waiting => cases herr
      | raised e =>
        obtain rfl : e = err := Option.some.inj herr
        exact hended e rfl

/-- One track, played (28), paused (28) and stopped (14); then the list is left (14). -/
def pausedRun : MusicPlayer :=
  init (World.boot (initDatabases none none none) [.press 1 28, .press 2 28, .press 3 14, .press 4 14])
    (fun _ => { exits := [], killed := [], fails := false }) fun _ => [['a']]

theorem run_safe_paused : OnlyAlive none (finalState (run Ui.plain fun _ _ _ => none) pausedRun).procs :=
  (run_safe Ui.plain (fun _ _ _ => none) _ _ _).2.1
    (by decide +kernel : returned? (run Ui.plain fun _ _ _ => none) pausedRun = some ())

end MusicPlayer

end NeoDCT
