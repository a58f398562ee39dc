import NeoDCT.Lib.PyNumbers
import NeoDCT.Lib.Runs
import NeoDCT.Lib.Sources

/-!
# The browser's status bar

The status bar (neodct-browser/main.py) is shown while a page loads, and hidden by a timer two seconds
after.  Loads start and end in any order, and a timer that is pending fires at any time:

    during a load no timer is pending, and never more than one                     (status_single)
    _hide_timer_id is None or pending, and what is removed is pending,
      as long as no timer fires, and not after                                     (status_live_iff)

`GLib.timeout_add` is not part of the browser; of the ids it gives only that they are not zero is used.
-/

namespace NeoDCT.Browser

open PyText Interactive MainLoop

/-! ## The texts -/

/-- The text after the first `sep`, which is not empty. -/
def afterFirst (sep : Text) : Text → Option Text
  | [] => none
  | c :: cs => if sep <+: c :: cs then some ((c :: cs).drop sep.length) else afterFirst sep cs

/-- `host_from_url`. -/
def hostFromUrl (url : Text) : Text :=
  let s := strip url
  let s := (afterFirst "://".toList s).getD s
  let s := s.takeWhile (· ≠ '/')
  let s := s.takeWhile (· ≠ '?')
  if s ≠ [] then s else url

/-! ## The bar -/

/-- `_load_stage`. -/
inductive LoadStage where
  | idle | waiting | connected | transferring | done
deriving DecidableEq, Repr

def LoadStage.isLoading : LoadStage → Bool
  | .waiting | .connected | .transferring => true
  | .idle | .done => false

/-- The attributes of `NeoDCTBrowser` for its status bar, and GLib's sources that hide it. -/
structure StatusBar where
  lastUri : Text
  loadStage : LoadStage
  hideTimerId : Option ℕ
  sources : Sources
  /-- `status_revealer.get_reveal_child()`. -/
  revealChild : Bool
  /-- The text of `status_label`. -/
  statusText : Text

namespace StatusBar

/-- What `__init__` sets, for its `DEFAULT_URL`, which it goes on to load. -/
def init (defaultUrl : Text) : StatusBar where
  lastUri := defaultUrl
  loadStage := .idle
  hideTimerId := none
  sources := { pending := [], removed := [] }
  revealChild := false
  statusText := []

/-- `_cancel_hide_timer`. -/
def cancelHideTimer (self : StatusBar) : StatusBar :=
  match self.hideTimerId with
  | some id =>
    if id ≠ 0 then { self with sources := self.sources.remove id, hideTimerId := none } else self
  | none => self

/-- `show_status_bar`. -/
def showStatusBar (self : StatusBar) : StatusBar :=
  let self := self.cancelHideTimer
  if !self.revealChild then { self with revealChild := true } else self

/-- `hide_status_bar_after`; `timeoutAdd` gives the source's id. -/
def hideStatusBarAfter (timeoutAdd : Sources → ℤ → ℕ) (self : StatusBar) (s : ℚ) : StatusBar :=
  let self := self.cancelHideTimer
  let id := timeoutAdd self.sources (toInt (s * 1000))
  { self with hideTimerId := some id, sources := self.sources.attach id }

/-- `set_status`. -/
def setStatus (self : StatusBar) (t : Text) : StatusBar := { self with statusText := t.take 80 }

/-- `set_status_waiting`. -/
def setStatusWaiting (self : StatusBar) (uri : Text) : StatusBar :=
  let self := { self with lastUri := uri, loadStage := .waiting }
  self.showStatusBar.setStatus ("Waiting for ".toList ++ hostFromUrl uri ++ "...".toList)

/-- `set_status_connected`. -/
def setStatusConnected (self : StatusBar) (uri : Text) : StatusBar :=
  let self := { self with lastUri := uri, loadStage := .connected }
  self.showStatusBar.setStatus "Connected...".toList

/-- `set_status_transferring`. -/
def setStatusTransferring (self : StatusBar) (uri : Text) (pct : Option ℤ) : StatusBar :=
  let self := { self with lastUri := uri, loadStage := .transferring }
  self.showStatusBar.setStatus <|
    match pct with
    | none => "Transferring...".toList
    | some pct => "Transferring... ".toList ++ (toString pct).toList ++ ['%']

/-- `set_status_done`. -/
def setStatusDone (timeoutAdd : Sources → ℤ → ℕ) (self : StatusBar) : StatusBar :=
  let self := { self with loadStage := .done }
  (self.showStatusBar.setStatus "Done.".toList).hideStatusBarAfter timeoutAdd 2

/-- `w.get_uri() or self._last_uri`. -/
def currentUri (self : StatusBar) : Option Text → Text
  | some (c :: cs) => c :: cs
  | _ => self.lastUri

/-- `on_load_changed`. -/
def onLoadChanged (timeoutAdd : Sources → ℤ → ℕ) (self : StatusBar) (uri : Option Text) (ev : ℤ) :
    StatusBar :=
  let uri := self.currentUri uri
  if ev = 0 then self.setStatusWaiting uri
  else if ev = 1 then self.setStatusWaiting uri
  else if ev = 2 then (self.setStatusConnected uri).setStatusTransferring uri none
  else if ev = 3 then self.setStatusDone timeoutAdd
  else self

/-- `on_progress_changed`. -/
def onProgressChanged (self : StatusBar) (uri : Option Text) (p : ℚ) : StatusBar :=
  if self.loadStage.isLoading ∧ 0 < p ∧ p < 1 then
    self.setStatusTransferring (self.currentUri uri) (some (toInt (p * 100)))
  else self

/-- `_load_url_smart`; `readable` tells whether the local file that the URL names can be read. -/
def loadUrlSmart (self : StatusBar) (url : Text) (readable : Bool) : StatusBar :=
  if "file://".toList <+: url ∧ readable = true then self else self.setStatusWaiting url

/-- The source that `hide_status_bar_after` made fires. -/
def hideTimerFires (self : StatusBar) (id : ℕ) : StatusBar :=
  if id ∈ self.sources.pending then
    { self with revealChild := false, sources := self.sources.fire id }
  else self

/-! ## Its fields -/

theorem loadStage_cancelHideTimer (b : StatusBar) : b.cancelHideTimer.loadStage = b.loadStage := by
  unfold cancelHideTimer
  split
  · split <;> rfl
  · rfl

/-- Whatever the handle is, nothing is pending afterwards. -/
theorem pending_cancelHideTimer {b : StatusBar} (h : Single b.hideTimerId b.sources) :
    b.cancelHideTimer.sources.pending = [] := by
  unfold cancelHideTimer
  split
  · next id hhandle =>
    rw [hhandle] at h
    split
    · exact h.pending_remove
    · next hzero =>
      refine h.pending_of_falsy ?_
      rintro _ ⟨⟩
      exact not_not.mp hzero
  · next hhandle =>
    refine h.pending_of_falsy ?_
    rw [hhandle]
    intro id hnone
    cases hnone

/-- The bar is shown, whether it was before or not. -/
theorem showStatusBar_eq (b : StatusBar) :
    b.showStatusBar = { b.cancelHideTimer with revealChild := true } := by
  show (if !b.cancelHideTimer.revealChild then _ else _) = _
  split
  · rfl
  · next h =>
    have hshown : true = b.cancelHideTimer.revealChild := by simpa using h
    rw [hshown]

/-! ## Events -/

inductive Event where
  | loadChanged (uri : Option Text) (ev : ℤ)
  | progress (uri : Option Text) (p : ℚ)
  | loadUrl (url : Text) (readable : Bool)
  | timer (id : ℕ)

def step (timeoutAdd : Sources → ℤ → ℕ) (self : StatusBar) : Event → StatusBar
  | .loadChanged uri ev => self.onLoadChanged timeoutAdd uri ev
  | .progress uri p => self.onProgressChanged uri p
  | .loadUrl url readable => self.loadUrlSmart url readable
  | .timer id => self.hideTimerFires id

/-- What a status and its timer keep, and a timer's firing, is kept by every step. -/
theorem step_keeps (timeoutAdd : Sources → ℤ → ℕ) (Q : StatusBar → Prop)
    (hshow : ∀ b uri stage t, Q b →
      Q (({ b with lastUri := uri, loadStage := stage } : StatusBar).showStatusBar.setStatus t))
    (hhide : ∀ b, b.loadStage = .done → Q b → Q (b.hideStatusBarAfter timeoutAdd 2))
    {b : StatusBar} {e : Event}
    (hfire : ∀ id, e = .timer id → id ∈ b.sources.pending → Q b →
      Q { b with revealChild := false, sources := b.sources.fire id }) (hb : Q b) :
    Q (step timeoutAdd b e) := by
  cases e with
  | loadChanged uri ev =>
    show Q (b.onLoadChanged timeoutAdd uri ev)
    unfold onLoadChanged
    split
    · exact hshow b _ .waiting _ hb
    · split
      · exact hshow b _ .waiting _ hb
      · split
        · exact hshow _ _ .transferring _ (hshow b _ .connected _ hb)
        · split
          · refine hhide _ ?_ (hshow b b.lastUri .done _ hb)
            show (showStatusBar _).loadStage = .done
            rw [showStatusBar_eq]
            exact loadStage_cancelHideTimer _
          · exact hb
  | progress uri p =>
    show Q (b.onProgressChanged uri p)
    unfold onProgressChanged
    split
    · exact hshow b _ .transferring _ hb
    · exact hb
  | loadUrl url readable =>
    show Q (b.loadUrlSmart url readable)
    unfold loadUrlSmart
    split
    · exact hb
    · exact hshow b _ .waiting _ hb
  | timer id =>
    show Q (b.hideTimerFires id)
    unfold hideTimerFires
    split
    · next hid => exact hfire id rfl hid hb
    · exact hb

/-! ## At most one timer, and none during a load -/

/-- No timer is pending but `_hide_timer_id`, and none during a load, which has the bar shown. -/
structure Timed (b : StatusBar) : Prop where
  single : Single b.hideTimerId b.sources
  loading : b.loadStage.isLoading = true → b.sources.pending = [] ∧ b.revealChild = true

theorem timed_init (defaultUrl : Text) : Timed (init defaultUrl) where
  single := Or.inl rfl
  loading := fun h => by cases h

/-- A status is shown, and nothing hides it. -/
theorem timed_show {b : StatusBar} (h : Single b.hideTimerId b.sources) (t : Text) :
    Timed (b.showStatusBar.setStatus t) := by
  have hnone : (b.showStatusBar.setStatus t).sources.pending = [] := by
    show b.showStatusBar.sources.pending = []
    rw [showStatusBar_eq]
    exact pending_cancelHideTimer h
  refine ⟨Or.inl hnone, fun _ => ⟨hnone, ?_⟩⟩
  show b.showStatusBar.revealChild = true
  rw [showStatusBar_eq]

theorem Timed.hide {timeoutAdd : Sources → ℤ → ℕ} (hid : ∀ s n, timeoutAdd s n ≠ 0) {b : StatusBar}
    (h : Timed b) (hdone : b.loadStage = .done) (s : ℚ) :
    Timed (b.hideStatusBarAfter timeoutAdd s) := by
  constructor
  · exact single_attach (pending_cancelHideTimer h.single) (hid _ _)
  · intro hloading
    have hstage : b.cancelHideTimer.loadStage.isLoading = true := hloading
    rw [loadStage_cancelHideTimer, hdone] at hstage
    cases hstage

/-- A timer that fires was pending, so nothing was loading. -/
theorem Timed.fire {b : StatusBar} (h : Timed b) {id : ℕ} (hpending : id ∈ b.sources.pending) :
    Timed { b with revealChild := false, sources := b.sources.fire id } := by
  constructor
  · exact h.single.fire id
  · intro hloading
    rw [(h.loading hloading).1] at hpending
    cases hpending

theorem Timed.step {timeoutAdd : Sources → ℤ → ℕ} (hid : ∀ s n, timeoutAdd s n ≠ 0) {b : StatusBar}
    (h : Timed b) (e : Event) : Timed (step timeoutAdd b e) :=
  step_keeps timeoutAdd Timed
    (fun b uri stage _ hb => timed_show (b := { b with lastUri := uri, loadStage := stage }) hb.single _)
    (fun _ hdone hb => hb.hide hid hdone 2) (fun _ _ hpending hb => hb.fire hpending) h

/-- **The status bar's timers**: never more than one, and none during a load, which has the bar shown. -/
theorem status_single {timeoutAdd : Sources → ℤ → ℕ} (hid : ∀ s n, timeoutAdd s n ≠ 0)
    (defaultUrl : Text) (events : List Event) :
    Always (step timeoutAdd)
      (fun b => b.sources.pending.length ≤ 1 ∧
        (b.loadStage.isLoading = true → b.sources.pending = [] ∧ b.revealChild = true))
      (init defaultUrl) events := by
  have hall : Always (step timeoutAdd) Timed (init defaultUrl) events :=
    always_induct Timed (timed_init defaultUrl) fun _ e _ hb => hb.step hid e
  exact hall.mono fun b hb => ⟨hb.single.length_le, hb.loading⟩

/-- An id that is neither pending nor removed. -/
def nextId (s : Sources) (_ : ℤ) : ℕ := (s.pending ++ s.removed.map Prod.fst).foldr max 0 + 1

theorem nextId_ne_zero (s : Sources) (n : ℤ) : nextId s n ≠ 0 := Nat.succ_ne_zero _

/-- A page has been loaded, the bar is hidden, and another page loads. -/
def secondLoad : List Event :=
  [.loadUrl ['a'] false, .loadChanged none 3, .timer 1, .loadUrl ['b'] false]

theorem status_single_second : (secondLoad.foldl (step nextId) (init ['a'])).sources.pending = [] :=
  ((status_single nextId_ne_zero ['a'] secondLoad _ (List.prefix_refl _)).2 rfl).1

/-! ## The id that is kept -/

/-- `_hide_timer_id` is `None` or pending, and what was removed was pending. -/
structure Tracked (b : StatusBar) : Prop where
  live : Live b.hideTimerId b.sources
  allFound : b.sources.AllFound

theorem tracked_init (defaultUrl : Text) : Tracked (init defaultUrl) where
  live := live_none _
  allFound := fun _ h => by cases h

theorem Tracked.cancel {b : StatusBar} (h : Tracked b) : Tracked b.cancelHideTimer := by
  unfold cancelHideTimer
  split
  · next id hhandle =>
    split
    · have hlive : Live (some id) b.sources := hhandle ▸ h.live
      exact ⟨live_none _, hlive.allFound_remove h.allFound⟩
    · exact h
  · exact h

theorem Tracked.show {b : StatusBar} (h : Tracked b) (t : Text) :
    Tracked (b.showStatusBar.setStatus t) := by
  obtain ⟨hlive, hfound⟩ := h.cancel
  rw [showStatusBar_eq]
  exact ⟨hlive, hfound⟩

theorem Tracked.hide {timeoutAdd : Sources → ℤ → ℕ} {b : StatusBar} (h : Tracked b) (s : ℚ) :
    Tracked (b.hideStatusBarAfter timeoutAdd s) where
  live := live_attach _ _
  allFound := h.cancel.allFound

/-- No timer fires. -/
def Unfired (b : StatusBar) (e : Event) : Prop := ∀ id, e = .timer id → id ∉ b.sources.pending

theorem Tracked.step {timeoutAdd : Sources → ℤ → ℕ} {b : StatusBar} (h : Tracked b) {e : Event}
    (he : Unfired b e) : Tracked (step timeoutAdd b e) :=
  step_keeps timeoutAdd Tracked
    (fun b uri stage _ hb => Tracked.show (b := { b with lastUri := uri, loadStage := stage })
      ⟨hb.live, hb.allFound⟩ _)
    (fun _ _ hb => hb.hide 2) (fun id hid hpending => absurd hpending (he id hid)) h

/-- A timer that fires leaves its id behind. -/
theorem Timed.unfired {timeoutAdd : Sources → ℤ → ℕ} {b : StatusBar} (h : Timed b) {e : Event}
    (hafter : Tracked (StatusBar.step timeoutAdd b e)) : Unfired b e := by
  rintro id rfl hpending
  have hstep : StatusBar.step timeoutAdd b (.timer id) =
      { b with revealChild := false, sources := b.sources.fire id } := if_pos hpending
  rw [hstep] at hafter
  exact h.single.not_live hpending hafter.live

/-- **When `_hide_timer_id` is None or pending**, and only what is pending is removed: in the runs in
which no timer fires. -/
theorem status_live_iff {timeoutAdd : Sources → ℤ → ℕ} (hid : ∀ s n, timeoutAdd s n ≠ 0)
    (defaultUrl : Text) (events : List Event) :
    Always (step timeoutAdd) (fun b => Live b.hideTimerId b.sources ∧ b.sources.AllFound)
      (init defaultUrl) events ↔
    EveryStep (step timeoutAdd) Unfired (init defaultUrl) events := by
  refine always_iff (fun b => Timed b ∧ Tracked b) ?_ ?_ ?_ ⟨timed_init _, tracked_init _⟩
  · rintro b e ⟨htimed, htracked⟩ he
    exact ⟨htimed.step hid e, htracked.step he⟩
  · rintro b ⟨-, hlive, hfound⟩
    exact ⟨hlive, hfound⟩
  · rintro b e ⟨htimed, -⟩ ⟨hlive, hfound⟩
    exact htimed.unfired ⟨hlive, hfound⟩

/-- A load that ends, and one that starts before the timer fires. -/
theorem status_live_iff_unfired :
    ([.loadChanged none 3, .loadUrl ['b'] false].foldl (step nextId) (init ['a'])).sources.AllFound := by
  refine ((status_live_iff nextId_ne_zero ['a'] [.loadChanged none 3, .loadUrl ['b'] false]).mpr ?_
    _ (List.prefix_refl _)).2
  refine everyStep_cons.mpr ⟨?_, everyStep_cons.mpr ⟨?_, everyStep_nil⟩⟩
  · intro id h
    cases h
  · intro id h
    cases h

/-- The timer has fired when the second load starts, and is removed again. -/
theorem status_not_live : ¬ ∀ (defaultUrl : Text) (events : List Event),
    Always (step nextId) (fun b => Live b.hideTimerId b.sources ∧ b.sources.AllFound)
      (init defaultUrl) events := by
  intro hall
  have hfound := (hall ['a'] secondLoad _ (List.prefix_refl _)).2
  have hmem : (1, false) ∈ (secondLoad.foldl (step nextId) (init ['a'])).sources.removed :=
    List.mem_cons_self
  cases hfound _ hmem

end StatusBar

end NeoDCT.Browser
