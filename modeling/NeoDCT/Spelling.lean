import NeoDCT.ContactCalls

/-!
# Which numbers the home screen can dial

`DEV_KEYMAP` spells digits, `-`, `.`, `,`, `*` and `#`, but its code for `#` is 28, and `handle_input`
takes 28 for the centre key before it looks into the map.  So, for the numbers over the map's
characters,

    some key presses from HOME dial just that number  ↔  '#' is not in it       (dialled_iff)

and no run of the main loop dials a `#`.
-/

namespace NeoDCT

open PyText Interactive

/-- The characters of `DEV_KEYMAP`. -/
def keymapChars : List Char := devKeymap.map Prod.snd

/-- `handle_input`, for one key after another. -/
def handleInputs (ui : Ui) : List Nat → UI Unit
  | [] => pure ()
  | code :: codes => do
    handleInput ui code
    handleInputs ui codes

theorem dialled_append (l l' : List Event) : dialled (l ++ l') = dialled l ++ dialled l' :=
  List.filterMap_append ..

theorem mem_dialled {l : List Event} {number : PyVal} : number ∈ dialled l ↔ .dial number ∈ l := by
  unfold dialled
  rw [List.mem_filterMap]
  constructor
  · rintro ⟨e, he, h⟩
    cases e <;> cases h
    exact he
  · intro h
    exact ⟨_, h, rfl⟩

/-! ## Numbers without a `#` -/

/-- A code that reaches the last branch of `handle_input`, and types `c` there. -/
def Types (code : Nat) (c : Char) : Prop :=
  code ≠ 28 ∧ code ≠ 14 ∧ code ≠ 103 ∧ code ≠ 108 ∧ devKeymap.lookup code = some c

theorem exists_types {c : Char} (hc : c ∈ keymapChars) (h : c ≠ '#') : ∃ code, Types code c := by
  have hall : ∀ entry ∈ devKeymap, entry.2 ≠ '#' → Types entry.1 entry.2 := by
    unfold Types
    decide
  obtain ⟨entry, he, rfl⟩ := List.mem_map.mp hc
  exact ⟨entry.1, hall entry he h⟩

/-- A key that types `c` adds it to the buffer, and dials nothing. -/
theorem handleInput_types (ui : Ui) {code : Nat} {c : Char} (h : Types code c) {w : World}
    (hw : w.state = .HOME ∨ w.state = .HOME_DIALING) {E : Halt PyError → World → Prop} :
    wp (handleInput ui code) (fun _ w' => w' = { entered w code with
      dialBuffer := w.dialBuffer ++ [c]
      state := .HOME_DIALING }) E w := by
  obtain ⟨h28, h14, h103, h108, hlookup⟩ := h
  have hcontacts : ¬ ((code = 103 ∨ code = 108) ∧ w.state = .HOME) := by
    rintro ⟨h | h, -⟩
    · exact h103 h
    · exact h108 h
  rw [wp_handleInput]
  rw [if_neg h28, if_neg h14, if_neg hcontacts]
  unfold handleTyping
  rw [wp_bind, wp_get, hlookup]
  simp only []
  rw [if_pos (by exact hw)]
  exact rfl

theorem handleInputs_append (ui : Ui) (codes codes' : List Nat) :
    handleInputs ui (codes ++ codes') =
      (handleInputs ui codes >>= fun _ => handleInputs ui codes' : UI Unit) := by
  induction codes with
  | nil => exact (pure_bind (m := UI) () fun _ => handleInputs ui codes').symm
  | cons code codes ih =>
    show (handleInput ui code >>= fun _ => handleInputs ui (codes ++ codes') : UI Unit) = _
    rw [ih, ← bind_assoc]
    rfl

/-- A number without a `#` can be typed. -/
theorem exists_spelling (ui : Ui) {number : Text} (hchars : ∀ c ∈ number, c ∈ keymapChars)
    (hhash : '#' ∉ number) {w : World} (hw : w.state = .HOME ∨ w.state = .HOME_DIALING)
    {E : Halt PyError → World → Prop} :
    ∃ codes, wp (handleInputs ui codes) (fun _ w' => w'.dialBuffer = w.dialBuffer ++ number ∧
      w'.state = (if number = [] then w.state else .HOME_DIALING) ∧
      ∃ evs, w'.log = w.log ++ evs ∧ dialled evs = []) E w := by
  induction number generalizing w with
  | nil => exact ⟨[], (List.append_nil _).symm, rfl, [], (List.append_nil _).symm, rfl⟩
  | cons c number ih =>
    obtain ⟨hc, hchars⟩ := List.forall_mem_cons.mp hchars
    rw [List.mem_cons, not_or] at hhash
    obtain ⟨code, hcode⟩ := exists_types hc (Ne.symm hhash.1)
    set w₁ : World := { entered w code with
      dialBuffer := w.dialBuffer ++ [c]
      state := .HOME_DIALING } with hw₁
    obtain ⟨codes, hcodes⟩ := ih hchars hhash.2 (w := w₁) (Or.inr rfl)
    refine ⟨code :: codes, wp_seq (handleInput_types ui hcode hw) (fun _ _ h => h) ?_⟩
    rintro _ _ rfl
    refine wp_mono hcodes ?_ fun _ _ h => h
    rintro _ w₂ ⟨hbuf, hstate, evs, hlog, hevs⟩
    refine ⟨?_, ?_, .handleInput code w.state w.dialBuffer :: evs, ?_, hevs⟩
    · rw [hbuf]
      simp [hw₁]
    · rw [hstate, if_neg (List.cons_ne_nil c number)]
      split <;> rfl
    · rw [hlog]
      simp [hw₁, entered]

/-- A call dials once, whatever its screen shows. -/
theorem dialled_call (code : Nat) (state : UiState) (buffer : Text) {number : PyVal}
    {evs evs' : List Event} (hevs : CallScreen.Showings number evs) (hevs' : ∀ e ∈ evs', e = .hangup) :
    dialled (.handleInput code state buffer :: .dial number :: (evs ++ evs')) = [number] := by
  have hother : dialled (evs ++ evs') = [] := by
    rw [List.eq_nil_iff_forall_not_mem]
    intro number' hn
    rcases List.mem_append.mp (mem_dialled.mp hn) with he | he
    · cases hevs _ he
    · cases hevs' _ he
  show number :: dialled (evs ++ evs') = [number]
  rw [hother]

/-- The centre key dials what was typed, and then only the call goes on. -/
theorem handleInput_dials (ui : Ui) {w : World} (hw : w.state = .HOME_DIALING) :
    let P : World → Prop := fun w' =>
      ∃ evs, w'.log = w.log ++ evs ∧ dialled evs = [.str w.dialBuffer]
    wp (handleInput ui 28) (fun _ => P) (fun _ => P) w := by
  intro P
  rw [wp_handleInput]
  rw [if_pos rfl]
  unfold handleCenter
  rw [wp_bind, wp_get]
  have hstate : (entered w 28).state = .HOME_DIALING := hw
  rw [hstate]
  simp only []
  refine wp_seq (record_spec _ _) (fun _ _ h => h) ?_
  rintro _ _ rfl
  have noHangup : ∀ e ∈ ([] : List Event), e = .hangup := by simp
  have oneHangup : ∀ e ∈ [Event.hangup], e = .hangup := by simp
  refine wp_seq (CallScreen.showCalling_spec ui _ _) ?_ ?_
  · rintro _ w₁ ⟨evs, hevs, h⟩
    refine ⟨_, ?_, dialled_call 28 w.state w.dialBuffer hevs noHangup⟩
    rw [h.log]
    simp [entered]
    rfl
  · rintro _ w₁ ⟨evs, hevs, h⟩
    refine ⟨_, ?_, dialled_call 28 w.state w.dialBuffer hevs oneHangup⟩
    show w₁.log = _
    rw [h.log]
    simp [entered]
    rfl

/-! ## No number with a `#` -/

/-- Since the journal was `l`, no number with a `#` was dialled. -/
def NoHashDialled (l : List Event) (w : World) : Prop :=
  ∃ evs, w.log = l ++ evs ∧ ∀ s, PyVal.str s ∈ dialled evs → '#' ∉ s

theorem NoHashDialled.refl (w : World) : NoHashDialled w.log w :=
  ⟨[], (List.append_nil _).symm, fun s hs => by cases hs⟩

/-- Entries that dial no `#` keep it so. -/
theorem NoHashDialled.more {l evs : List Event} {w w' : World} (h : NoHashDialled l w)
    (hlog : w'.log = w.log ++ evs) (hevs : ∀ s, PyVal.str s ∈ dialled evs → '#' ∉ s) :
    NoHashDialled l w' := by
  obtain ⟨evs₀, hl, h₀⟩ := h
  refine ⟨evs₀ ++ evs, by rw [hlog, hl, List.append_assoc], ?_⟩
  intro s hs
  rw [dialled_append, List.mem_append] at hs
  exact hs.elim (h₀ s) (hevs s)

/-- A screen's entries dial nothing. -/
theorem NoHashDialled.logged {l evs : List Event} {w w' : World} (h : NoHashDialled l w)
    (hlog : Logged evs w w') (hevs : ∀ e ∈ evs, ∀ number, e ≠ .dial number) : NoHashDialled l w' := by
  refine h.more hlog.log ?_
  intro s hs
  exact absurd rfl (hevs _ (mem_dialled.mp hs) _)

/-- The `#` of the map belongs to 28, which types nothing. -/
theorem lookup_ne_hash {code : Nat} (h : code ≠ 28) : devKeymap.lookup code ≠ some '#' := by
  intro hl
  have hall : ∀ entry ∈ devKeymap, entry.2 = '#' → entry.1 = 28 := by decide
  obtain ⟨l₁, l₂, heq, -⟩ := List.lookup_eq_some_iff.mp hl
  have hmem : (code, '#') ∈ devKeymap := by
    rw [heq]
    exact List.mem_append_right _ List.mem_cons_self
  exact h (hall _ hmem rfl)

/-- The buffer and the dialled numbers stay without a `#`. -/
def NoHash (l : List Event) (w : World) : Prop := '#' ∉ w.dialBuffer ∧ NoHashDialled l w

section
variable {l : List Event} {w : World} (h : NoHash l w)
include h

theorem handleCenter_noHash (ui : Ui) :
    wp (handleCenter ui) (fun _ w' => NoHash l w') (fun _ w' => NoHashDialled l w') w := by
  unfold handleCenter
  rw [wp_bind, wp_get]
  cases w.state with
  | HOME => exact h
  | MENU => exact h
  | HOME_DIALING =>
    have hdial : NoHashDialled l (w.journal [.dial (.str w.dialBuffer)]) := by
      refine h.2.more (World.journal_log w _) ?_
      intro s hs
      obtain rfl : s = w.dialBuffer := by simpa [dialled] using hs
      exact h.1
    have hshow : ∀ {evs}, CallScreen.Showings (.str w.dialBuffer) evs →
        ∀ e ∈ evs, ∀ number, e ≠ .dial number := by
      intro evs hevs e he number
      rw [hevs e he]
      simp
    refine wp_seq (record_spec _ w) (fun _ _ h => h) ?_
    rintro _ _ rfl
    refine wp_seq (CallScreen.showCalling_spec ui _ _) ?_ ?_
    · rintro _ w₁ ⟨evs, hevs, h₁⟩
      exact hdial.logged h₁ (hshow hevs)
    · rintro _ w₁ ⟨evs, hevs, h₁⟩
      have h₂ : NoHashDialled l w₁ := by
        refine hdial.logged h₁ ?_
        intro e he
        rcases List.mem_append.mp he with he | he
        · exact hshow hevs e he
        · rw [List.mem_singleton.mp he]
          simp
      exact ⟨List.not_mem_nil, h₂⟩

theorem handleBackspace_noHash {E : Halt PyError → World → Prop} :
    wp handleBackspace (fun _ w' => NoHash l w') E w := by
  unfold handleBackspace
  rw [wp_bind, wp_get]
  have hdrop : '#' ∉ w.dialBuffer.dropLast := fun hc => h.1 (List.mem_of_mem_dropLast hc)
  split
  · by_cases hnil : w.dialBuffer.dropLast = []
    · rw [if_pos hnil]
      exact ⟨hdrop, h.2⟩
    · rw [if_neg hnil]
      exact ⟨hdrop, h.2⟩
  · exact h

theorem handleContacts_noHash (ui : Ui) :
    wp (handleContacts ui) (fun _ w' => NoHash l w') (fun _ w' => NoHashDialled l w') w := by
  unfold handleContacts
  refine wp_seq (showContactSelector_spec ui _ _ none _ w rfl rfl) ?_ ?_
  · rintro _ w₁ ⟨-, -, h₁, -⟩
    exact h.2.logged h₁ (by simp)
  intro res w₁ h₁
  have hno : NoHash l w₁ := by
    rcases h₁ with ⟨-, -, h₁⟩ | ⟨-, sel, -, h₁, -⟩
    · exact ⟨h₁.dialBuffer ▸ h.1, h.2.logged h₁ (by simp)⟩
    · exact ⟨h₁.dialBuffer ▸ h.1, h.2.logged h₁ (by cases sel <;> simp [VerticalList.closed])⟩
  cases res with
  | none => exact hno
  -- `target[2]` raises, before anything is dialled
  | some target => exact hno.2

theorem handleTyping_noHash {code : Nat} (h28 : code ≠ 28) {E : Halt PyError → World → Prop} :
    wp (handleTyping code) (fun _ w' => NoHash l w') E w := by
  unfold handleTyping
  rw [wp_bind, wp_get]
  cases hc : devKeymap.lookup code with
  | none => exact h
  | some char =>
    have hchar : char ≠ '#' := fun he => lookup_ne_hash h28 (he ▸ hc)
    have hbuf : '#' ∉ w.dialBuffer ++ [char] := by
      rw [List.mem_append, List.mem_singleton, not_or]
      exact ⟨h.1, Ne.symm hchar⟩
    simp only []
    split
    · exact ⟨hbuf, h.2⟩
    · exact h

theorem handleInput_noHash (ui : Ui) (code : Nat) :
    wp (handleInput ui code) (fun _ w' => NoHash l w') (fun _ w' => NoHashDialled l w') w := by
  have hrec : NoHash l (entered w code) := ⟨h.1, h.2.more rfl (by simp [dialled])⟩
  rw [wp_handleInput]
  by_cases h28 : code = 28
  · subst h28
    exact handleCenter_noHash hrec ui
  rw [if_neg h28]
  by_cases h14 : code = 14
  · subst h14
    exact handleBackspace_noHash hrec
  rw [if_neg h14]
  split
  · exact handleContacts_noHash hrec ui
  · exact handleTyping_noHash hrec h28

theorem handleInputs_noHash (ui : Ui) (codes : List Nat) :
    wp (handleInputs ui codes) (fun _ w' => NoHashDialled l w') (fun _ w' => NoHashDialled l w') w := by
  induction codes generalizing w with
  | nil => exact h.2
  | cons code codes ih =>
    refine wp_seq (handleInput_noHash h ui code) (fun _ _ h => h) ?_
    intro _ w₁ h₁
    exact ih h₁

end

/-- What the main loop's journal says was typed has no `#`. -/
theorem typed_noHash (l : List Event) : '#' ∉ typed l := by
  unfold typed sinceReset
  have h28 : ∀ code ∈ ((handledKeys l).reverse.takeWhile (· ≠ 28)).reverse, code ≠ 28 := by
    intro code hc
    simpa using List.mem_takeWhile_imp (List.mem_reverse.mp hc)
  refine List.foldlRecOn _ typeKey (motive := fun buffer => '#' ∉ buffer) List.not_mem_nil ?_
  intro buffer hbuf code hc
  unfold typeKey
  split
  · exact fun hc => hbuf (List.mem_of_mem_dropLast hc)
  · cases hlook : devKeymap.lookup code with
    | none => exact hbuf
    | some char =>
      have hchar : char ≠ '#' := fun he => lookup_ne_hash (h28 code hc) (he ▸ hlook)
      simp only [List.mem_append, List.mem_singleton, not_or]
      exact ⟨hbuf, Ne.symm hchar⟩

/-- An entry about a number has no `#` in it. -/
def Event.NoHash (e : Event) : Prop :=
  (∀ s, e = .dial (.str s) → '#' ∉ s) ∧ ∀ code state s, e = .handleInput code state s → '#' ∉ s

/-- No number in the journal of a main loop has a `#`. -/
theorem homeHistory_noHash {l : List Event} {up : Bool} (h : History HomeStep [] false l up) :
    ∀ e ∈ l, e.NoHash := by
  induction h with
  | start => exact fun e he => absurd he List.not_mem_nil
  | @snoc l up up' e _ hs ih =>
    intro e' he'
    rcases List.mem_append.mp he' with he' | he'
    · exact ih e' he'
    rw [List.mem_singleton.mp he']
    cases hs with
    | other hother =>
      constructor
      · rintro s rfl
        cases hother
      · rintro code state s rfl
        cases hother
    | handle _ _ =>
      constructor
      · intro s hs
        cases hs
      · intro code state s hs
        cases hs
        exact typed_noHash l
    | @dial l buffer _ =>
      -- the buffer is the one `handle_input` was called with just before
      have hbuf : '#' ∉ buffer := (ih _ (List.mem_append_right _ (List.mem_singleton_self _))).2 _ _ _ rfl
      constructor
      · intro s hs
        cases hs
        exact hbuf
      · intro code state s hs
        cases hs
    | hangup =>
      constructor
      · intro s hs
        cases hs
      · intro code state s hs
        cases hs

/-- **Which numbers can be dialled**: from HOME with an empty buffer some keys dial just this number,
if and only if there is no `#` in it; and no run of the main loop dials a number with a `#`. -/
theorem dialled_iff (launch : AppEntry → UI Unit) (ui : Ui) (w : World) (number : Text)
    (hlaunch : LaunchOk launch) (hstate : w.state = .HOME) (hbuf : w.dialBuffer = [])
    (hne : number ≠ []) (hchars : ∀ c ∈ number, c ∈ keymapChars) :
    ((∃ codes, dialled (newEvents (handleInputs ui codes) w) = [.str number]) ↔ '#' ∉ number) ∧
    ∀ db input s, PyVal.str s ∈ dialled (finalState (mainLoop launch ui) (World.boot db input)).log →
      '#' ∉ s := by
  constructor
  · constructor
    · rintro ⟨codes, hcodes⟩
      have hw : NoHash w.log w := ⟨by simp [hbuf], NoHashDialled.refl w⟩
      obtain ⟨evs, hlog, hevs⟩ := finalState_of_wp (P := NoHashDialled w.log)
        (handleInputs_noHash hw ui codes)
      rw [newEvents_eq hlog] at hcodes
      exact hevs number (by simp [hcodes])
    · intro hhash
      obtain ⟨codes, hcodes⟩ := exists_spelling ui hchars hhash (Or.inl hstate)
        (E := fun _ _ => False)
      set P : World → Prop := fun w' =>
        ∃ evs, w'.log = w.log ++ evs ∧ dialled evs = [.str number] with hP
      have hrun : wp (handleInputs ui (codes ++ [28])) (fun _ => P) (fun _ => P) w := by
        rw [handleInputs_append]
        refine wp_seq hcodes (fun _ _ h => h.elim) ?_
        rintro _ w₁ ⟨hbuf₁, hstate₁, evs₁, hlog₁, hevs₁⟩
        rw [if_neg hne] at hstate₁
        have hmore : ∀ w₂, (∃ evs, w₂.log = w₁.log ++ evs ∧ dialled evs = [.str w₁.dialBuffer]) →
            P w₂ := by
          rintro w₂ ⟨evs, hlog, hevs⟩
          refine ⟨evs₁ ++ evs, by rw [hlog, hlog₁, List.append_assoc], ?_⟩
          rw [dialled_append, hevs₁, hevs, hbuf₁, hbuf]
          rfl
        refine wp_seq (handleInput_dials ui hstate₁) (fun _ w₂ h => hmore w₂ h) ?_
        intro _ w₂ h
        exact hmore w₂ h
      obtain ⟨evs, hlog, hevs⟩ := finalState_of_wp hrun
      exact ⟨codes ++ [28], by rw [newEvents_eq hlog, hevs]⟩
  · intro db input s hs
    obtain ⟨up, h⟩ : ∃ up, History HomeStep [] false _ up :=
      finalState_of_wp (P := fun w' => ∃ up, HomeHistory w' up)
        (mainLoop_history hlaunch ui _ (ready_boot db input))
    exact (homeHistory_noHash h _ (mem_dialled.mp hs)).1 s rfl

theorem dialled_iff_emergency : ∃ codes,
    dialled (newEvents (handleInputs Ui.plain codes) (World.boot (initDatabases none none none) [])) =
      [.str "112".toList] :=
  (dialled_iff (launchBundled noOthers Ui.plain) Ui.plain (World.boot (initDatabases none none none) [])
    "112".toList (launchBundled_ok noOthers_ok Ui.plain) rfl rfl (by decide)
    (by simp [keymapChars, devKeymap])).1.mpr (by decide)

/-- A number over the map's characters that no keys dial. -/
theorem not_dialled_hash : ¬ ∀ number : Text, number ≠ [] → (∀ c ∈ number, c ∈ keymapChars) →
    ∃ codes, dialled (newEvents (handleInputs Ui.plain codes)
      (World.boot (initDatabases none none none) [])) = [.str number] := by
  intro hall
  obtain ⟨codes, hcodes⟩ := hall ['#'] (by decide) (by simp [keymapChars, devKeymap])
  set w := World.boot (initDatabases none none none) []
  have hw : NoHash w.log w := ⟨List.not_mem_nil, NoHashDialled.refl w⟩
  obtain ⟨evs, hlog, hevs⟩ := finalState_of_wp (P := NoHashDialled w.log)
    (handleInputs_noHash hw Ui.plain codes)
  rw [newEvents_eq hlog] at hcodes
  exact hevs ['#'] (by simp [hcodes]) List.mem_cons_self

end NeoDCT
