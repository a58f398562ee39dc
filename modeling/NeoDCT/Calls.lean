import NeoDCT.Home
import NeoDCT.Apps.Contacts
import NeoDCT.Apps.Mail
import NeoDCT.Apps.NotImplemented

/-!
# Dialling, over whole runs

`HomeStep up l e up'` says when the entry `e` may follow the journal `l`, and whether a call is up
before and after it.  Every run of the main loop is a history of such steps (`mainLoop_history`), so

    handle_input is called in HOME or HOME_DIALING, HOME_DIALING iff dial_buffer is not empty
    dial_buffer is what was typed since the last 28
    the modem's calls are dial, hangup, dial, hangup, …, and a dial carries the buffer
                                                                     (mainLoop_safe)

for apps that leave `state`, `dial_buffer`, the modem and the main loop's journal alone.
-/

namespace NeoDCT

open PyText Interactive

/-! ## What the journal says was typed -/

/-- An entry of `handle_input` or of the modem. -/
def Event.ofHome : Event → Bool
  | .handleInput _ _ _ | .dial _ | .hangup => true
  | _ => false

/-- The keys `handle_input` was called with. -/
def handledKeys (l : List Event) : List Nat :=
  l.filterMap fun
    | .handleInput code _ _ => some code
    | _ => none

/-- The keys after the last 28, which is where the buffer was reset. -/
def sinceReset (keys : List Nat) : List Nat := (keys.reverse.takeWhile (· ≠ 28)).reverse

/-- A key typed on the home screen. -/
def typeKey (buffer : Text) (key : Nat) : Text :=
  if key = 14 then buffer.dropLast
  else
    match devKeymap.lookup key with
    | some char => buffer ++ [char]
    | none => buffer

/-- What was typed since the last reset. -/
def typed (l : List Event) : Text := (sinceReset (handledKeys l)).foldl typeKey []

theorem sinceReset_snoc (keys : List Nat) (key : Nat) :
    sinceReset (keys ++ [key]) = if key = 28 then [] else sinceReset keys ++ [key] := by
  unfold sinceReset
  rw [List.reverse_append, List.reverse_singleton, List.singleton_append, List.takeWhile_cons]
  by_cases h : key = 28 <;> simp [h]

theorem typed_handleInput (l : List Event) (code : Nat) (state : UiState) (buffer : Text) :
    typed (l ++ [.handleInput code state buffer]) =
      if code = 28 then [] else typeKey (typed l) code := by
  have hkeys : handledKeys (l ++ [.handleInput code state buffer]) = handledKeys l ++ [code] := by
    simp [handledKeys]
  unfold typed
  rw [hkeys, sinceReset_snoc]
  by_cases h : code = 28 <;> simp [h]

theorem typed_append_other (l evs : List Event)
    (h : ∀ e ∈ evs, ∀ code state buffer, e ≠ .handleInput code state buffer) :
    typed (l ++ evs) = typed l := by
  have hkeys : handledKeys evs = [] := by
    unfold handledKeys
    rw [List.filterMap_eq_nil_iff]
    intro e he
    split
    · exact absurd rfl (h _ he _ _ _)
    · rfl
  unfold typed handledKeys
  rw [List.filterMap_append]
  unfold handledKeys at hkeys
  rw [hkeys, List.append_nil]

/-! ## Steps of the main loop -/

inductive HomeStep : Bool → List Event → Event → Bool → Prop
  | other {up : Bool} {l : List Event} {e : Event} (h : e.ofHome = false) : HomeStep up l e up
  | handle {l : List Event} {code : Nat} {state : UiState} (hmenu : state ≠ .MENU)
      (hdialing : state = .HOME_DIALING ↔ typed l ≠ []) :
      HomeStep false l (.handleInput code state (typed l)) false
  | dial {l : List Event} {buffer : Text} (hbuffer : buffer ≠ []) :
      HomeStep false (l ++ [.handleInput 28 .HOME_DIALING buffer]) (.dial (.str buffer)) true
  | hangup {l : List Event} : HomeStep true l .hangup false

/-- The journal of the main loop so far. -/
abbrev HomeHistory (w : World) (up : Bool) : Prop := History HomeStep [] false w.log up

/-- The main loop's invariant: no call is up, and the buffer is what was typed. -/
structure Ready (w : World) : Prop where
  history : HomeHistory w false
  buffer : w.dialBuffer = typed w.log
  dialing : w.state = .HOME_DIALING ↔ w.dialBuffer ≠ []

/-- What an app may do: it leaves `state`, `dial_buffer`, the modem and `handle_input` alone, and
takes its keys from the keypad. -/
structure Unobtrusive (w w' : World) : Prop where
  log : ∃ evs, w'.log = w.log ++ evs ∧ ∀ e ∈ evs, e.ofHome = false
  state : w'.state = w.state
  dialBuffer : w'.dialBuffer = w.dialBuffer
  input : w'.io.input.length ≤ w.io.input.length

theorem Logged.unobtrusive {evs : List Event} {w w' : World} (hevs : ∀ e ∈ evs, e.ofHome = false)
    (h : Logged evs w w') : Unobtrusive w w' :=
  ⟨⟨evs, h.log, hevs⟩, h.state, h.dialBuffer, h.input⟩

theorem Quiet.unobtrusive {w w' : World} (h : Quiet w w') : Unobtrusive w w' :=
  h.logged.unobtrusive (by simp)

/-- An app whose entries are screens and writes is unobtrusive. -/
theorem AppStep.unobtrusive {σ : Type} {step : σ → List Event → Event → σ → Prop} {store : Db → σ}
    (hstep : ∀ s l e s', step s l e s' → e.ofHome = false) {w w' : World}
    (h : AppStep step store w w') : Unobtrusive w w' :=
  ⟨(h.history.entries (fun _ => True) (fun e => e.ofHome = false)
    (fun s l e s' _ hs => ⟨hstep s l e s' hs, trivial⟩) trivial).1, h.state, h.dialBuffer, h.input⟩

theorem ofHome_of_isScreen {e : Event} (h : e.isScreen) : e.ofHome = false := by
  cases e <;> first | rfl | cases h

theorem PhoneBook.Change.ofHome {t t' : AutoTable Contact} {l : List Event} {e : Event}
    (h : PhoneBook.Change t l e t') : e.ofHome = false := by
  cases h with
  | screen h => exact ofHome_of_isScreen h
  | add _ _ _ _ => rfl
  | edit _ _ _ => rfl
  | erase _ _ _ => rfl

theorem Messages.Change.ofHome {ui : Ui} {m m' : Messages.Mail} {l : List Event} {e : Event}
    (h : Messages.Change ui m l e m') : e.ofHome = false := by
  cases h with
  | screen h _ _ => exact ofHome_of_isScreen h
  | eraseInbox _ _ => rfl
  | eraseOutbox _ _ => rfl
  | save _ _ => rfl

/-! ## What unobtrusive steps keep -/

theorem Unobtrusive.history {w w' : World} {up : Bool} (h : Unobtrusive w w')
    (hw : HomeHistory w up) : HomeHistory w' up := by
  obtain ⟨evs, hlog, hevs⟩ := h.log
  unfold HomeHistory
  rw [hlog]
  exact hw.trans (History.idle fun l e he => .other (hevs e he))

theorem Unobtrusive.typed_eq {w w' : World} (h : Unobtrusive w w') : typed w'.log = typed w.log := by
  obtain ⟨evs, hlog, hevs⟩ := h.log
  rw [hlog]
  refine typed_append_other _ _ ?_
  rintro e he code state buffer rfl
  cases hevs _ he

theorem Unobtrusive.ready {w w' : World} (h : Unobtrusive w w') (hw : Ready w) : Ready w' where
  history := h.history hw.history
  buffer := by rw [h.dialBuffer, h.typed_eq, hw.buffer]
  dialing := by rw [h.state, h.dialBuffer, hw.dialing]

/-- In MENU nothing is typed, so going back to HOME keeps the invariant. -/
theorem Ready.home {w : World} (h : Ready w) (hstate : w.state ≠ .HOME_DIALING) (state : UiState)
    (hnew : state ≠ .HOME_DIALING) : Ready { w with state := state } where
  history := h.history
  buffer := h.buffer
  dialing := by
    show state = .HOME_DIALING ↔ w.dialBuffer ≠ []
    rw [← h.dialing]
    exact ⟨fun h => absurd h hnew, fun h => absurd h hstate⟩

/-! ## handle_input -/

/-- What `handle_input` promises: it is ready again, or it halted with the journal in order. -/
def Handled (w : World) (_ : Unit) (w' : World) : Prop :=
  Ready w' ∧ w'.io.input.length ≤ w.io.input.length

def InOrder (_ : Halt PyError) (w' : World) : Prop := ∃ up, HomeHistory w' up

/-- The world in which `handle_input` starts on a key. -/
def entered (w : World) (code : Nat) : World :=
  w.journal [.handleInput code w.state w.dialBuffer]

/-- `handle_input` leaves its journal entry, and then one of its branches runs. -/
theorem wp_handleInput {ui : Ui} {code : Nat} {Q : Unit → World → Prop} {E : Halt PyError → World → Prop}
    {w : World} : wp (handleInput ui code) Q E w ↔
      wp (if code = 28 then handleCenter ui
        else if code = 14 then handleBackspace
        else if (code = 103 ∨ code = 108) ∧ w.state = .HOME then handleContacts ui
        else handleTyping code) Q E (entered w code) := Iff.rfl

section
variable {w : World} (hw : Ready w) (hmenu : w.state ≠ .MENU)
include hw

theorem Ready.typed_entered (code : Nat) :
    typed (entered w code).log = if code = 28 then [] else typeKey w.dialBuffer code := by
  unfold entered
  rw [World.journal_log, typed_handleInput, hw.buffer]

theorem Ready.buffer_nil (h : w.state ≠ .HOME_DIALING) : w.dialBuffer = [] := by
  by_contra hne
  exact h (hw.dialing.mpr hne)

include hmenu

theorem Ready.history_entered (code : Nat) : HomeHistory (entered w code) false := by
  refine History.snoc (s := false) hw.history ?_
  rw [hw.buffer]
  exact .handle hmenu (by rw [← hw.buffer]; exact hw.dialing)

/-- Code 28: nothing is typed afterwards, and a call that was placed has been hung up. -/
theorem handleCenter_spec (ui : Ui) :
    wp (handleCenter ui) (Handled (entered w 28)) InOrder (entered w 28) := by
  have hist := hw.history_entered hmenu 28
  have htyped : typed (entered w 28).log = [] := by rw [hw.typed_entered, if_pos rfl]
  unfold handleCenter
  rw [wp_bind, wp_get]
  cases hs : (entered w 28).state with
  | MENU => exact absurd hs hmenu
  | HOME =>
    have hnil : w.dialBuffer = [] := hw.buffer_nil fun h => by
      have hs' : w.state = .HOME := hs
      rw [hs'] at h
      cases h
    refine ⟨⟨hist, ?_, ?_⟩, le_rfl⟩
    · show w.dialBuffer = typed (entered w 28).log
      rw [htyped, hnil]
    · show UiState.MENU = .HOME_DIALING ↔ w.dialBuffer ≠ []
      simp [hnil]
  | HOME_DIALING =>
    have hs' : w.state = .HOME_DIALING := hs
    set number : PyVal := .str w.dialBuffer with hnumber
    have hdial : HomeHistory ((entered w 28).journal [.dial number]) true := by
      refine History.snoc (s := false) hist ?_
      rw [entered, World.journal_log, hs']
      exact .dial (hw.dialing.mp hs')
    have shown : ∀ {evs}, CallScreen.Showings number evs → ∀ e ∈ evs, e.ofHome = false := by
      intro evs h e he
      rw [h e he]
      rfl
    refine wp_seq (record_spec _ _) (fun _ _ h => h) ?_
    rintro _ _ rfl
    refine wp_seq (CallScreen.showCalling_spec ui _ _) ?_ ?_
    · rintro _ w₁ ⟨evs, hevs, h⟩
      exact ⟨true, (h.unobtrusive (shown hevs)).history hdial⟩
    rintro _ w₁ ⟨evs, hevs, h⟩
    have hist₁ : HomeHistory w₁ false := by
      unfold HomeHistory
      rw [h.log, ← List.append_assoc]
      exact (hdial.trans (History.idle fun _ e he => .other (shown hevs e he))).snoc .hangup
    have hnil : typed w₁.log = [] := by
      rw [h.log, World.journal_log, List.append_assoc, typed_append_other, htyped]
      intro e he code state b
      rw [List.mem_append, List.mem_append, List.mem_singleton, List.mem_singleton] at he
      rcases he with rfl | he | rfl
      · simp
      · rw [hevs e he]; simp
      · simp
    exact ⟨⟨hist₁, hnil.symm, by simp⟩, h.input⟩

/-- Code 14: the last character goes, and with the only one HOME_DIALING. -/
theorem handleBackspace_spec : wp handleBackspace (Handled (entered w 14)) InOrder (entered w 14) := by
  have hist := hw.history_entered hmenu 14
  have htyped : typed (entered w 14).log = w.dialBuffer.dropLast := hw.typed_entered 14
  unfold handleBackspace
  rw [wp_bind, wp_get]
  split
  · next hs =>
    by_cases hnil : (entered w 14).dialBuffer.dropLast = []
    · rw [if_pos hnil]
      exact ⟨⟨hist, htyped.symm, ⟨(fun h => by cases h), fun h => absurd hnil h⟩⟩, le_rfl⟩
    · rw [if_neg hnil]
      exact ⟨⟨hist, htyped.symm, ⟨fun _ => hnil, fun _ => hs⟩⟩, le_rfl⟩
  · next hs =>
    have hnil : w.dialBuffer = [] := hw.buffer_nil hs
    refine ⟨⟨hist, ?_, hw.dialing⟩, le_rfl⟩
    rw [htyped, hnil]
    exact hnil

/-- Codes 103 and 108: they type nothing, and no contact is ever called. -/
theorem handleContacts_spec (ui : Ui) {code : Nat} (hcode : code = 103 ∨ code = 108) :
    wp (handleContacts ui) (Handled (entered w code)) InOrder (entered w code) := by
  have hist := hw.history_entered hmenu code
  have hready : Ready (entered w code) := by
    refine ⟨hist, ?_, hw.dialing⟩
    rw [hw.typed_entered]
    rcases hcode with rfl | rfl <;> rfl
  unfold handleContacts
  refine wp_seq (showContactSelector_spec ui _ _ none _ (entered w code) rfl rfl) ?_ ?_
  · rintro _ w₁ ⟨-, -, h, -⟩
    exact ⟨false, (h.unobtrusive (by simp [Event.ofHome])).history hist⟩
  intro res w₁ h
  have hun : Unobtrusive (entered w code) w₁ := by
    rcases h with ⟨-, -, h⟩ | ⟨-, sel, -, h, -⟩
    · exact h.unobtrusive (by simp [Event.ofHome])
    · cases sel <;> exact h.unobtrusive (by simp [Event.ofHome, VerticalList.closed])
  cases res with
  | none => exact ⟨hun.ready hready, hun.input⟩
  | some target => exact ⟨false, hun.history hist⟩

/-- Any other code: a character of the keymap is typed. -/
theorem handleTyping_spec {code : Nat} (h28 : code ≠ 28) (h14 : code ≠ 14) :
    wp (handleTyping code) (Handled (entered w code)) InOrder (entered w code) := by
  have hist := hw.history_entered hmenu code
  have htyped := hw.typed_entered code
  rw [if_neg h28, typeKey, if_neg h14] at htyped
  have hin : (entered w code).state = .HOME ∨ (entered w code).state = .HOME_DIALING := by
    show w.state = .HOME ∨ w.state = .HOME_DIALING
    cases hs : w.state with
    | HOME => exact Or.inl rfl
    | HOME_DIALING => exact Or.inr rfl
    | MENU => exact absurd hs hmenu
  unfold handleTyping
  rw [wp_bind, wp_get]
  cases hl : devKeymap.lookup code with
  | none =>
    rw [hl] at htyped
    exact ⟨⟨hist, htyped.symm, hw.dialing⟩, le_rfl⟩
  | some char =>
    rw [hl] at htyped
    simp only []
    rw [if_pos hin]
    exact ⟨⟨hist, htyped.symm, ⟨fun _ => List.append_ne_nil_of_right_ne_nil _ (by simp),
      fun _ => rfl⟩⟩, le_rfl⟩

theorem handleInput_spec (ui : Ui) (code : Nat) :
    wp (handleInput ui code) (Handled w) InOrder w := by
  rw [wp_handleInput]
  by_cases h28 : code = 28
  · subst h28
    exact handleCenter_spec hw hmenu ui
  rw [if_neg h28]
  by_cases h14 : code = 14
  · subst h14
    exact handleBackspace_spec hw hmenu
  rw [if_neg h14]
  by_cases hc : (code = 103 ∨ code = 108) ∧ w.state = .HOME
  · rw [if_pos hc]
    exact handleContacts_spec hw hmenu ui hc.1
  · rw [if_neg hc]
    exact handleTyping_spec hw hmenu h28 h14

end

/-! ## The loop -/

/-- An app keeps out of the main loop's way. -/
def LaunchOk (launch : AppEntry → UI Unit) : Prop :=
  ∀ app w, wp (launch app) (fun _ w' => Unobtrusive w w') (fun _ w' => Unobtrusive w w') w

/-- The entry of a bundled app, from its manifest. -/
def bundled (folder name : String) (id : ℤ) : AppEntry where
  name := name.toList
  icon := ("/NeoDCT/System/apps/" ++ folder ++ "/icon.png").toList
  path := ("/NeoDCT/System/apps/" ++ folder).toList
  exec := "main.py".toList
  id := id

/-- The apps that only say that they are not implemented yet. -/
def notImplemented : List AppEntry :=
  [bundled "CallLog" "Call Log" 3, bundled "Settings" "Settings" 4, bundled "Forwarding" "Forwarding" 5,
    bundled "Calculator" "Calculator" 7, bundled "Clock" "Clock" 8, bundled "Tones" "Tones" 9]

/-- What launching an app runs.  Games, MusicPlayer, Tests, Browser and Linux Shell, where anything may be
typed to a shell, are not modelled as apps: what they do is `others`. -/
def launchBundled (others : AppEntry → UI Unit) (ui : Ui) (app : AppEntry) : UI Unit :=
  if app.path = (bundled "PhoneBook" "Phone book" 1).path then PhoneBook.run ui
  else if app.path = (bundled "Messages" "Messages" 2).path then Messages.run ui
  else if app.path ∈ notImplemented.map AppEntry.path then NotImplementedApp.run ui
  else others app

/-- The apps keep out of the main loop's way when the others do. -/
theorem launchBundled_ok {others : AppEntry → UI Unit} (hothers : LaunchOk others) (ui : Ui) :
    LaunchOk (launchBundled others ui) := by
  intro app w
  unfold launchBundled
  split
  · exact wp_mono (PhoneBook.run_spec ui w)
      (fun _ _ h => h.unobtrusive fun _ _ _ _ hs => hs.ofHome)
      fun _ _ h => h.2.unobtrusive fun _ _ _ _ hs => hs.ofHome
  · split
    · exact wp_mono (Messages.run_step ui w)
        (fun _ _ h => h.unobtrusive fun _ _ _ _ hs => hs.ofHome)
        fun _ _ h => h.unobtrusive fun _ _ _ _ hs => hs.ofHome
    · split
      · exact wp_mono (NotImplementedApp.run_spec ui w) (fun _ _ h => h.quiet.unobtrusive)
          fun _ _ h => h.unobtrusive
      · exact hothers app w

/-- A phone without the others. -/
def noOthers : AppEntry → UI Unit := fun _ => pure ()

theorem noOthers_ok : LaunchOk noOthers := fun _ w => Quiet.unobtrusive (.refl w)

theorem update_spec {launch : AppEntry → UI Unit} (hlaunch : LaunchOk launch) (ui : Ui) (w : World)
    (hw : Ready w) : wp (update launch ui)
      (fun _ w' => Ready w' ∧ w'.state ≠ .MENU ∧ w'.io.input.length ≤ w.io.input.length)
      InOrder w := by
  have drawn : ∀ {w'}, Drawn w w' → Unobtrusive w w' := fun h => h.quiet.unobtrusive
  unfold update
  rw [wp_bind, wp_get]
  cases hs : w.state with
  | HOME =>
    refine wp_seq (attempt_spec _ w) ?_ ?_
    · rintro _ _ ⟨_, -, rfl⟩
      exact ⟨false, hw.history⟩
    rintro ops _ ⟨-, rfl⟩
    refine wp_mono (SoftKeyBar.show_spec ui _ _ _ _ _) (fun _ w' hd => ?_) fun _ _ h => h
    have hun := drawn hd
    exact ⟨hun.ready hw, by rw [hun.state, hs]; simp, hun.input⟩
  | HOME_DIALING =>
    refine wp_mono (SoftKeyBar.show_spec ui _ _ _ _ _) (fun _ w' hd => ?_) fun _ _ h => h
    have hun := drawn hd
    exact ⟨hun.ready hw, by rw [hun.state, hs]; simp, hun.input⟩
  | MENU =>
    have hstate : w.state ≠ .HOME_DIALING := by rw [hs]; simp
    refine wp_seq (AppSelector.showModal_spec ui _ w)
      (fun _ _ h => ⟨false, h.unobtrusive.history hw.history⟩) fun choice w₁ h₁ => ?_
    have hun := h₁.quiet.unobtrusive
    have home : ∀ w₂, Unobtrusive w w₂ → Ready { w₂ with state := .HOME } := fun w₂ h =>
      (h.ready hw).home (by rw [h.state]; exact hstate) .HOME (by simp)
    cases choice with
    | none => exact ⟨home w₁ hun, by simp, hun.input⟩
    | some i =>
      simp only []
      cases ui.apps[i]? with
      | none => exact ⟨false, hun.history hw.history⟩
      | some app =>
        have more : ∀ {w₂}, Unobtrusive w₁ w₂ → Unobtrusive w w₂ := by
          rintro w₂ ⟨⟨evs, hlog, hevs⟩, hst, hb, hin⟩
          obtain ⟨evs₁, hlog₁, hevs₁⟩ := hun.log
          refine ⟨⟨evs₁ ++ evs, by rw [hlog, hlog₁, List.append_assoc], fun e he => ?_⟩,
            hst.trans hun.state, hb.trans hun.dialBuffer, hin.trans hun.input⟩
          exact (List.mem_append.mp he).elim (hevs₁ e) (hevs e)
        refine wp_seq (hlaunch app w₁) (fun _ _ h => ⟨false, (more h).history hw.history⟩)
          fun _ w₂ h₂ => ?_
        exact ⟨home w₂ (more h₂), by simp, (more h₂).input⟩

/-- **Every run of the main loop is in order.** -/
theorem mainLoop_history {launch : AppEntry → UI Unit} (hlaunch : LaunchOk launch) (ui : Ui)
    (w : World) (hw : Ready w) : wp (mainLoop launch ui) (fun _ w' => ∃ up, HomeHistory w' up)
      InOrder w := by
  refine wp_loop (fun _ w' => Ready w') hw ?_
  rintro - w₁ hw₁
  refine wp_seq (update_spec hlaunch ui w₁ hw₁) (fun _ _ h => h) ?_
  rintro _ w₂ ⟨hw₂, hmenu, hle⟩
  unfold readKey
  simp only [bind_assoc, pure_bind]
  refine wp_seq (poll_spec w₂) ?_ ?_
  · rintro _ _ ⟨-, -, rfl⟩
    exact ⟨false, hw₂.history⟩
  rintro p _ ⟨ps, hps, rfl⟩
  set w₃ := w₂.withIo { w₂.io with input := ps, clock := p.time }
  have hun : Unobtrusive w₂ w₃ :=
    Quiet.unobtrusive ⟨_, by rw [hps]; exact Nat.le_succ _, rfl⟩
  have hlt : w₃.io.input.length < w₁.io.input.length := by
    rw [hps] at hle
    exact hle
  have hw₃ := hun.ready hw₂
  cases p.key with
  | none => exact ⟨hw₃, hlt⟩
  | some key =>
    refine wp_seq (handleInput_spec hw₃ hmenu ui key) (fun _ _ h => h) ?_
    rintro _ w₄ ⟨hw₄, hle₄⟩
    exact ⟨hw₄, lt_of_le_of_lt hle₄ hlt⟩

/-! ## The order of modem calls -/

inductive ModemCall where
  | dial | hangup
deriving DecidableEq, Repr

def modemCalls (l : List Event) : List ModemCall :=
  l.filterMap fun
    | .dial _ => some .dial
    | .hangup => some .hangup
    | _ => none

/-- `n` complete calls. -/
def completeCalls (n : Nat) : List ModemCall := (List.replicate n [.dial, .hangup]).flatten

theorem completeCalls_succ (n : Nat) :
    completeCalls (n + 1) = completeCalls n ++ [.dial] ++ [.hangup] := by
  unfold completeCalls
  rw [List.replicate_succ']
  simp

theorem modemCalls_snoc (l : List Event) (e : Event) :
    modemCalls (l ++ [e]) = modemCalls l ++ modemCalls [e] := List.filterMap_append ..

/-- In a history the calls made are complete, except for the one that is up. -/
theorem modemCalls_history {l : List Event} {up : Bool} (h : History HomeStep [] false l up) :
    ∃ n, modemCalls l = completeCalls n ++ if up then [.dial] else [] := by
  induction h with
  | start => exact ⟨0, rfl⟩
  | @snoc l up up' e _ hs ih =>
    obtain ⟨n, hn⟩ := ih
    rw [modemCalls_snoc, hn]
    cases hs with
    | other he =>
      refine ⟨n, ?_⟩
      have : modemCalls [e] = [] := by cases e <;> first | rfl | cases he
      rw [this, List.append_nil]
    | handle _ _ => exact ⟨n, by simp [modemCalls]⟩
    | dial _ => exact ⟨n, by simp [modemCalls]⟩
    | hangup => exact ⟨n + 1, by rw [completeCalls_succ]; simp [modemCalls]⟩

theorem ready_boot (db : Db) (input : List Poll) : Ready (World.boot db input) where
  history := .start
  buffer := rfl
  dialing := by simp [World.boot]

/-- **The home screen is safe**, in every run from the home screen, at every moment of it. -/
theorem mainLoop_safe (launch : AppEntry → UI Unit) (ui : Ui) (db : Db) (input : List Poll)
    (hlaunch : LaunchOk launch) :
    let log := (finalState (mainLoop launch ui) (World.boot db input)).log
    (∀ pre code state buffer post, log = pre ++ .handleInput code state buffer :: post →
      state ≠ .MENU ∧ (state = .HOME_DIALING ↔ buffer ≠ []) ∧
      buffer = (sinceReset (handledKeys pre)).foldl typeKey []) ∧
    (∃ n, modemCalls log <+: completeCalls n) ∧
    ∀ pre number post, log = pre ++ .dial number :: post →
      ∃ pre' buffer, pre = pre' ++ [.handleInput 28 .HOME_DIALING buffer] ∧ buffer ≠ [] ∧
        number = .str buffer := by
  intro log
  obtain ⟨up, h⟩ : ∃ up, History HomeStep [] false log up :=
    finalState_of_wp (P := fun w' => ∃ up, HomeHistory w' up)
      (mainLoop_history hlaunch ui _ (ready_boot db input))
  refine ⟨fun pre code state buffer post hlog => ?_, ?_, fun pre number post hlog => ?_⟩
  · obtain ⟨_, _, -, hs, -⟩ := h.split (hlog : _ = [] ++ pre ++ _)
    cases hs with
    | other he => cases he
    | handle hmenu hdialing => exact ⟨hmenu, hdialing, rfl⟩
  · obtain ⟨n, hn⟩ := modemCalls_history h
    refine ⟨n + 1, ?_⟩
    rw [hn, completeCalls_succ, List.append_assoc]
    refine List.prefix_append_right_inj _ |>.mpr ?_
    cases up <;> simp
  · obtain ⟨_, _, -, hs, -⟩ := h.split (hlog : _ = [] ++ pre ++ _)
    generalize hl : ([] : List Event) ++ pre = l at hs
    cases hs with
    | other he => cases he
    | dial hbuffer => exact ⟨_, _, hl, hbuffer, rfl⟩

/-- Menu, Phone book, Back out of it; then 1, 2, a call, its end. -/
def shortRun : List Poll :=
  [.press 1 28, ⟨2, none⟩, .press 3 28, .press 4 14, .press 5 2, .press 6 3, .press 7 28, ⟨8, none⟩,
    .press 9 14, ⟨10, none⟩]

/-- A phone with three of the bundled apps. -/
def bundledUi : Ui :=
  { Ui.plain with apps := [bundled "PhoneBook" "Phone book" 1, bundled "Messages" "Messages" 2,
      bundled "Calculator" "Calculator" 7] }

theorem mainLoop_safe_short :
    let log := (finalState (mainLoop (launchBundled noOthers bundledUi) bundledUi)
      (World.boot (initDatabases none none none) shortRun)).log
    modemCalls log = [.dial, .hangup] ∧ ∃ n, modemCalls log <+: completeCalls n :=
  ⟨by decide +kernel, (mainLoop_safe (launchBundled noOthers bundledUi) bundledUi _ shortRun
    (launchBundled_ok noOthers_ok bundledUi)).2.1⟩

end NeoDCT
