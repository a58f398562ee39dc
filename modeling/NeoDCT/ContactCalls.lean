import NeoDCT.Calls

/-!
# Calling a contact

A contact can be chosen for a call on the home screen and in PhoneBook > Search > Call.  `CallsMade`
says that a program placed exactly the calls the user asked for.  Neither path ever does: the home
screen reads a third item from the pair that the selector returns, and PhoneBook only shows a notice.

    handle_input(103 or 108)   makes the calls asked for  ↔  the keys choose no contact
    run_contact_options        makes the calls asked for  ↔  the keys do not choose Call
    PhoneBook                  makes the calls asked for  ↔  Call is never chosen      (calls_made)
-/

namespace NeoDCT

open PyText Interactive

/-! ## The calls asked for -/

/-- The calls asked for in a journal: `rows` was fetched last, the options of `contact` are open. -/
def callsAskedFrom (rows : List ContactRow) (contact : Option ContactRow) : List Event → List Text
  | [] => []
  | .fetchedContacts _ rows' :: es => callsAskedFrom rows' none es
  | .chose title items i :: es =>
    match contact, rows[i]? with
    | some r, _ =>
      if title = r.2.name ∧ items = PhoneBook.contactOptions ∧ i = 0 then
        r.2.number :: callsAskedFrom rows contact es
      else callsAskedFrom rows contact es
    | none, some r =>
      if title = "Select".toList then r.2.number :: callsAskedFrom [] none es
      else if title = "Results".toList then callsAskedFrom [] (some r) es
      else callsAskedFrom [] none es
    | none, none => callsAskedFrom rows none es
  | _ :: es => callsAskedFrom rows contact es

def callsAsked (l : List Event) : List Text := callsAskedFrom [] none l

/-- The numbers the modem was given. -/
def dialled (l : List Event) : List PyVal :=
  l.filterMap fun
    | .dial number => some number
    | _ => none

/-- The numbers the call screen was shown for. -/
def callsShown (l : List Event) : List PyVal :=
  l.filterMap fun
    | .calling number => some number
    | _ => none

/-- No exception; each call asked for is dialled once, in order; the call screen is shown for those
numbers, and for all of them once the program is done. -/
def CallsMade {α : Type} (ask : List Event → List Text) (p : UI α) (w : World) : Prop :=
  let asked := (ask (newEvents p w)).map PyVal.str
  raised? p w = none ∧ dialled (newEvents p w) = asked ∧
    (∀ number ∈ callsShown (newEvents p w), number ∈ asked) ∧
    ((returned? p w).isSome → ∀ number ∈ asked, number ∈ callsShown (newEvents p w))

/-- A program that makes no call makes the calls asked for if there are none. -/
theorem callsMade_iff {α : Type} {ask : List Event → List Text} {p : UI α} {w : World}
    (hraised : raised? p w = none) (hdialled : dialled (newEvents p w) = [])
    (hshown : callsShown (newEvents p w) = []) :
    CallsMade ask p w ↔ ask (newEvents p w) = [] := by
  unfold CallsMade
  rw [hdialled, hshown]
  refine ⟨fun h => List.map_eq_nil_iff.mp h.2.1.symm, fun h => ?_⟩
  rw [h]
  exact ⟨hraised, rfl, by simp, by simp⟩

/-! ## The home screen -/

/-- A key on which a list of `n` items returns. -/
def closesList (n key : Nat) : Bool := key = 14 || key = 28 || (2 ≤ key && key ≤ 10 && key - 2 < n)

/-- The first key that closes the selector chooses a contact. -/
def choosesContact (t : AutoTable Contact) (keys : List Nat) : Prop :=
  let rows := getAllContacts t none
  rows ≠ [] ∧ (keys.find? (closesList rows.length)).any (· ≠ 14)

theorem VerticalList.feed_closes {list : VerticalList} {keys : List Nat} :
    (∀ {sel rest}, feed onKey list keys = .inr (sel, rest) →
      ∃ key, keys.find? (closesList list.items.length) = some key ∧ (key = 14 ↔ sel = none)) ∧
    (∀ {list'}, feed onKey list keys = .inl list' →
      keys.find? (closesList list.items.length) = none) := by
  induction keys generalizing list with
  | nil => exact ⟨(fun h => by cases h), fun _ => rfl⟩
  | cons k ks ih =>
    rw [feed]
    cases hk : list.onKey k with
    | inl list' =>
      have hitems := (onKey_sameList hk).2.1
      have hopen : closesList list.items.length k = false := by
        unfold onKey at hk
        unfold closesList
        grind
      rw [List.find?_cons_of_neg (by simp [hopen]), ← hitems]
      exact ih
    | inr r =>
      have hclose : closesList list.items.length k = true ∧ (k = 14 ↔ r = none) := by
        unfold onKey at hk
        unfold closesList
        grind
      rw [List.find?_cons_of_pos hclose.1]
      refine ⟨fun {sel rest} h => ⟨k, rfl, ?_⟩, fun h => by cases h⟩
      obtain ⟨rfl, -⟩ : r = sel ∧ ks = rest := by simpa using h
      exact hclose.2

/-- What UP or DOWN does on the home screen: nothing but showing the selector, unless a contact is
chosen; then an exception. -/
theorem handleContacts_outcome (ui : Ui) (w : World) :
    wp (handleContacts ui)
      (fun _ w' => ¬ choosesContact w.db.contacts (presses w.io.input) ∧
        ∃ evs, Logged evs w w' ∧
          ((∃ rows, evs = [.fetchedContacts none rows]) ∨
            ∃ rows title items, evs = [.fetchedContacts none rows, .back title items]))
      (fun h w' => (h = .waiting ∧ ¬ choosesContact w.db.contacts (presses w.io.input) ∧
          ∃ rows, Logged [.fetchedContacts none rows] w w') ∨
        (h = .raised .indexError ∧ choosesContact w.db.contacts (presses w.io.input))) w := by
  unfold handleContacts choosesContact
  set rows := getAllContacts w.db.contacts none with hrows
  refine wp_seq (showContactSelector_spec ui _ _ none _ w hrows rfl) ?_ ?_
  · rintro _ w₁ ⟨rfl, -, h, list', hf⟩
    have hfind := VerticalList.feed_closes.2 hf
    rw [List.length_map] at hfind
    exact Or.inl ⟨rfl, by simp [hfind], rows, h⟩
  rintro res w₁ (⟨hnil, rfl, h⟩ | ⟨hne, sel, hf, h, hres⟩)
  · exact ⟨fun hc => hc.1 hnil, _, h, Or.inl ⟨rows, rfl⟩⟩
  obtain ⟨key, hfind, hkey⟩ := VerticalList.feed_closes.1 hf
  rw [List.length_map] at hfind
  cases sel with
  | none =>
    obtain rfl : res = none := hres
    refine ⟨?_, _, h, Or.inr ⟨rows, _, _, rfl⟩⟩
    rintro ⟨-, hany⟩
    rw [hfind, hkey.mpr rfl] at hany
    cases hany
  | some i =>
    obtain ⟨r, -, rfl⟩ := hres
    refine Or.inr ⟨rfl, hne, ?_⟩
    rw [hfind]
    simpa using mt hkey.mp (by simp)

theorem handleInput_contacts (ui : Ui) (w : World) {code : Nat} (hcode : code = 103 ∨ code = 108)
    (hstate : w.state = .HOME) : handleInput ui code w = handleContacts ui (entered w code) := by
  have h28 : code ≠ 28 := by omega
  have h14 : code ≠ 14 := by omega
  show (if code = 28 then handleCenter ui
    else if code = 14 then handleBackspace
    else if (code = 103 ∨ code = 108) ∧ w.state = .HOME then handleContacts ui
    else handleTyping code) (entered w code) = _
  rw [if_neg h28, if_neg h14, if_pos ⟨hcode, hstate⟩]

theorem callsMade_home (ui : Ui) (w : World) {code : Nat} (hcode : code = 103 ∨ code = 108)
    (hstate : w.state = .HOME) : CallsMade callsAsked (handleInput ui code) w ↔
      ¬ choosesContact w.db.contacts (presses w.io.input) := by
  have hwp := handleContacts_outcome ui (entered w code)
  have hrun := handleInput_contacts ui w hcode hstate
  have hnew : ∀ {evs}, Logged evs (entered w code) (finalState (handleInput ui code) w) →
      newEvents (handleInput ui code) w = .handleInput code w.state w.dialBuffer :: evs := fun h =>
    newEvents_eq (by rw [h.log, entered, World.journal_log, List.append_assoc]; rfl)
  unfold wp at hwp
  rw [← hrun] at hwp
  rcases wp_cases (p := handleInput ui code) (s := w) hwp with
    ⟨_, -, hraised, hnot, evs, hlog, hevs⟩ | ⟨h, -, hraised, ⟨rfl, hnot, rows, hlog⟩ | ⟨rfl, hchosen⟩⟩
  · refine ⟨fun _ => hnot, fun _ => ?_⟩
    rcases hevs with ⟨rows, rfl⟩ | ⟨rows, title, items, rfl⟩
    · rw [callsMade_iff hraised (by rw [hnew hlog]; rfl) (by rw [hnew hlog]; rfl), hnew hlog]
      rfl
    · rw [callsMade_iff hraised (by rw [hnew hlog]; rfl) (by rw [hnew hlog]; rfl), hnew hlog]
      rfl
  · refine ⟨fun _ => hnot, fun _ => ?_⟩
    rw [callsMade_iff hraised (by rw [hnew hlog]; rfl) (by rw [hnew hlog]; rfl), hnew hlog]
    rfl
  · refine ⟨fun h => ?_, fun h => absurd hchosen h⟩
    rw [h.1] at hraised
    cases hraised

/-! ## The options of a contact -/

/-- What a key does to the open options, up to the first Call: `true` is Call, `false` leaves. -/
def optionsKey (list : VerticalList) (key : Nat) : VerticalList ⊕ Bool :=
  match list.onKey key with
  | .inl list' => .inl list'
  | .inr none => .inr false
  | .inr (some 0) => .inr true
  | .inr (some 1) => .inr false
  | .inr (some 2) => .inr false
  | .inr (some _) => .inl list

/-- The keys choose Call before the options are left. -/
def choosesCall (list : VerticalList) (keys : List Nat) : Bool :=
  match feed optionsKey list keys with
  | .inr (true, _) => true
  | _ => false

/-- Entries of prompts, and writes. -/
def Event.ofPrompt : Event → Bool
  | .confirmed _ _ _ | .cancelled _ _ | .sql _ => true
  | _ => false

/-- Only prompts and writes happened. -/
def PromptsOnly (w w' : World) : Prop := ∃ evs, w'.log = w.log ++ evs ∧ ∀ e ∈ evs, e.ofPrompt

theorem Logged.promptsOnly {evs : List Event} {w w' : World} (hevs : ∀ e ∈ evs, e.ofPrompt)
    (h : Logged evs w w') : PromptsOnly w w' := ⟨evs, h.log, hevs⟩

theorem PromptsOnly.trans {w w' w'' : World} (h : PromptsOnly w w') (h' : PromptsOnly w' w'') :
    PromptsOnly w w'' := by
  obtain ⟨evs, hlog, hevs⟩ := h
  obtain ⟨evs', hlog', hevs'⟩ := h'
  refine ⟨evs ++ evs', by rw [hlog', hlog, List.append_assoc], fun e he => ?_⟩
  exact (List.mem_append.mp he).elim (hevs e) (hevs' e)

theorem textInput_promptsOnly (self : TextInput) (ui : Ui) (w : World) :
    wp (self.showModal ui) (fun _ w' => PromptsOnly w w')
      (fun h w' => h = .waiting ∧ PromptsOnly w w') w := by
  refine wp_mono (TextInput.showModal_logged ui self w) (fun r _ h => ?_)
    fun _ _ h => ⟨h.1, h.2.logged.promptsOnly (by simp)⟩
  refine h.promptsOnly ?_
  intro e he
  rw [List.mem_singleton] at he
  subst he
  cases r <;> rfl

theorem execute_promptsOnly (stmt : Stmt) (ops : List DrawOp) (w : World) :
    wp (do execute stmt; showNotice ops) (fun _ w' => PromptsOnly w w')
      (fun h w' => h = .waiting ∧ PromptsOnly w w') w := by
  refine wp_seq (execute_spec stmt w) (fun _ _ h => h) ?_
  rintro _ _ rfl
  refine wp_mono (showNotice_spec ops _) (fun _ w₁ hd => ?_) fun _ _ h => h
  exact ⟨[.sql stmt], by rw [hd.quiet.logged.log]; simp, by simp [Event.ofPrompt]⟩

theorem editContact_promptsOnly (ui : Ui) (r : ContactRow) (w : World) :
    wp (PhoneBook.editContactAction ui r) (fun _ w' => PromptsOnly w w')
      (fun h w' => h = .waiting ∧ PromptsOnly w w') w := by
  unfold PhoneBook.editContactAction
  refine wp_seq (textInput_promptsOnly _ ui w) (fun _ _ h => h) ?_
  intro name w₁ h₁
  cases name with
  | none => exact h₁
  | some name =>
    refine wp_seq (textInput_promptsOnly _ ui w₁) (fun _ _ h => ⟨h.1, h₁.trans h.2⟩) ?_
    intro number w₂ h₂
    cases number with
    | none => exact h₁.trans h₂
    | some number =>
      exact wp_mono (execute_promptsOnly _ _ w₂) (fun _ _ h => (h₁.trans h₂).trans h)
        fun _ _ h => ⟨h.1, (h₁.trans h₂).trans h.2⟩

theorem callsAskedFrom_append (rows : List ContactRow) (r : ContactRow) (evs evs' : List Event)
    (h : ∀ e ∈ evs, ∀ q rows', e ≠ .fetchedContacts q rows') :
    callsAskedFrom rows (some r) (evs ++ evs') =
      callsAskedFrom rows (some r) evs ++ callsAskedFrom rows (some r) evs' := by
  induction evs with
  | nil => rfl
  | cons e evs ih =>
    have ih := ih fun e he => h e (List.mem_cons_of_mem _ he)
    have he := h e List.mem_cons_self
    cases e with
    | fetchedContacts q rows' => exact absurd rfl (he q rows')
    | chose title items i =>
      simp only [List.cons_append, callsAskedFrom, ih]
      split <;> rfl
    | _ => exact ih

theorem callsAskedFrom_prompts (rows : List ContactRow) (r : ContactRow) {evs : List Event}
    (h : ∀ e ∈ evs, e.ofPrompt) : callsAskedFrom rows (some r) evs = [] := by
  induction evs with
  | nil => rfl
  | cons e evs ih =>
    have ih := ih fun e he => h e (List.mem_cons_of_mem _ he)
    have he := h e List.mem_cons_self
    cases e <;> first | exact ih | cases he

/-- `optionsKey` goes on where `onKey` does. -/
theorem feed_optionsKey {list list' : VerticalList} {ks : List Nat}
    (h : feed VerticalList.onKey list ks = .inl list') : feed optionsKey list ks = .inl list' := by
  induction ks generalizing list with
  | nil => cases h; rfl
  | cons k ks ih =>
    rw [feed] at h ⊢
    cases hk : list.onKey k with
    | inl l => rw [hk] at h; simpa only [optionsKey, hk] using ih h
    | inr r => rw [hk] at h; cases h

/-- Call is chosen when the list returned `sel`: now, or `later` if the menu stays open. -/
def callAfter (later : Bool) : Option Nat → Bool
  | none => false
  | some 0 => true
  | some 1 => false
  | some 2 => false
  | some _ => later

theorem choosesCall_closed {list list' : VerticalList} {ks : List Nat} {k : Nat} {sel : Option Nat}
    (rest : List Nat) (h : feed VerticalList.onKey list ks = .inl list')
    (hk : list'.onKey k = .inr sel) :
    choosesCall list (ks ++ k :: rest) = callAfter (choosesCall list' rest) sel := by
  unfold choosesCall
  rw [feed_snoc (feed_optionsKey h), optionsKey, hk]
  match sel with
  | none => rfl
  | some 0 => rfl
  | some 1 => rfl
  | some 2 => rfl
  | some (n + 3) => rfl

section
variable (r : ContactRow)

/-- The calls asked for while the options of `r` are open. -/
def optionsAsked (evs : List Event) : List Text := callsAskedFrom [] (some r) evs

/-- An entry made while the options of `r` are open, or by the action that closes them. -/
def OptionsEntry (e : Event) : Prop :=
  e.ofPrompt ∨ (∃ items, e = .back r.2.name items) ∨ ∃ j, e = .chose r.2.name PhoneBook.contactOptions j

/-- The journal since the options were opened, and whether the keys choose Call: they did already,
or the keys left will, which is `later`. -/
def Tally (chosen later : Bool) (w w' : World) : Prop :=
  ∃ evs, w'.log = w.log ++ evs ∧ (∀ e ∈ evs, OptionsEntry r e) ∧
    chosen = (!(optionsAsked r evs).isEmpty || later)

theorem optionsAsked_append {evs : List Event} (h : ∀ e ∈ evs, OptionsEntry r e)
    (evs' : List Event) :
    optionsAsked r (evs ++ evs') = optionsAsked r evs ++ optionsAsked r evs' := by
  refine callsAskedFrom_append [] r evs evs' ?_
  rintro e he q rows rfl
  rcases h _ he with h | ⟨_, h⟩ | ⟨_, h⟩ <;> cases h

variable {r}

/-- Entries that ask for no call. -/
theorem Tally.more {chosen later : Bool} {w w₁ w₂ : World} (h : Tally r chosen later w w₁)
    {evs : List Event} (hlog : w₂.log = w₁.log ++ evs) (hevs : ∀ e ∈ evs, OptionsEntry r e)
    (hasked : optionsAsked r evs = []) : Tally r chosen later w w₂ := by
  obtain ⟨evs₀, hlog₀, hevs₀, hc⟩ := h
  refine ⟨evs₀ ++ evs, by rw [hlog, hlog₀, List.append_assoc],
    fun e he => (List.mem_append.mp he).elim (hevs₀ e) (hevs e), ?_⟩
  rw [optionsAsked_append r hevs₀, hasked, List.append_nil]
  exact hc

theorem Tally.quiet {chosen later : Bool} {w w₁ w₂ : World} (h : Tally r chosen later w w₁)
    (hq : Quiet w₁ w₂) : Tally r chosen later w w₂ :=
  h.more hq.logged.log (List.forall_mem_nil _) rfl

theorem Tally.prompts {chosen later : Bool} {w w₁ w₂ : World} (h : Tally r chosen later w w₁)
    (h' : PromptsOnly w₁ w₂) : Tally r chosen later w w₂ := by
  obtain ⟨evs, hlog, hevs⟩ := h'
  exact h.more hlog (fun e he => Or.inl (hevs e he)) (callsAskedFrom_prompts [] r hevs)

/-- Call is chosen. -/
theorem Tally.call {chosen : Bool} {w w₁ w₂ : World} (h : Tally r chosen true w w₁) (later : Bool)
    (hlog : w₂.log = w₁.log ++ [.chose r.2.name PhoneBook.contactOptions 0]) :
    Tally r chosen later w w₂ := by
  obtain ⟨evs₀, hlog₀, hevs₀, hc⟩ := h
  refine ⟨evs₀ ++ [.chose r.2.name PhoneBook.contactOptions 0],
    by rw [hlog, hlog₀, List.append_assoc], fun e he => ?_, ?_⟩
  · rcases List.mem_append.mp he with he | he
    · exact hevs₀ e he
    · exact Or.inr (Or.inr ⟨0, List.mem_singleton.mp he⟩)
  · have hcall : optionsAsked r [.chose r.2.name PhoneBook.contactOptions 0] = [r.2.number] := by
      simp [optionsAsked, callsAskedFrom]
    rw [hc, optionsAsked_append r hevs₀, hcall]
    simp

/-- One iteration: Call is counted, any other entry goes on or ends the menu. -/
theorem contactOptionsBody_tally (ui : Ui) (list : VerticalList) {chosen : Bool} {w w₁ : World}
    (htitle : list.title = r.2.name) (hitems : list.items = PhoneBook.contactOptions)
    (h : Tally r chosen (choosesCall list (presses w₁.io.input)) w w₁) :
    wp (PhoneBook.contactOptionsBody ui r list)
      (fun res w' => res.elim
        (fun list' => (list'.title = r.2.name ∧ list'.items = PhoneBook.contactOptions ∧
          Tally r chosen (choosesCall list' (presses w'.io.input)) w w') ∧
          w'.io.input.length < w₁.io.input.length)
        fun _ => Tally r chosen false w w')
      (fun e w' => e = .waiting ∧ Tally r chosen false w w') w₁ := by
  unfold PhoneBook.contactOptionsBody
  refine wp_seq (SoftKeyBar.update_spec ui _ _ _ w₁) (fun _ _ h => h) ?_
  intro _ w₀ hd
  have h₀ : Tally r chosen (choosesCall list (presses w₀.io.input)) w w₀ := by
    rw [hd.input]
    exact h.quiet hd.quiet
  refine wp_seq (VerticalList.showModal_spec ui list w₀) ?_ ?_
  · rintro _ w₂ ⟨rfl, hq, list', hf⟩
    have hlater : choosesCall list (presses w₀.io.input) = false := by
      unfold choosesCall
      rw [feed_optionsKey hf]
    rw [hlater] at h₀
    exact ⟨rfl, h₀.quiet hq⟩
  rintro ⟨sel, list'⟩ w₂ ⟨⟨ks, k, hks, hfed, hk⟩, ⟨hs₁, hs₂, -⟩, w₃, hr, rfl⟩
  set w₂ := w₃.journal [list.closed sel]
  have hlog : w₂.log = w₀.log ++ [list.closed sel] := (Logged.single hr.quiet _).log
  have hlater := choosesCall_closed (presses w₂.io.input) hfed hk
  rw [hks, hlater] at h₀
  have hlt : w₂.io.input.length < w₁.io.input.length := by
    rw [← hd.input]
    exact hr.remaining
  have chose : ∀ {j later}, sel = some j → j ≠ 0 → Tally r chosen later w w₀ →
      Tally r chosen later w w₂ := by
    rintro j later rfl hj h
    have hev : list.closed (some j) = .chose r.2.name PhoneBook.contactOptions j := by
      rw [VerticalList.closed, htitle, hitems]
    rw [hev] at hlog
    refine h.more hlog (fun e he => Or.inr (Or.inr ⟨j, List.mem_singleton.mp he⟩)) ?_
    simp [optionsAsked, callsAskedFrom, hj]
  have stay : ∀ {w₄}, Drawn w₂ w₄ →
      Tally r chosen (choosesCall list' (presses w₂.io.input)) w w₂ →
      (list'.title = r.2.name ∧ list'.items = PhoneBook.contactOptions ∧
        Tally r chosen (choosesCall list' (presses w₄.io.input)) w w₄) ∧
        w₄.io.input.length < w₁.io.input.length := by
    intro w₄ hd₄ h
    refine ⟨⟨hs₁.trans htitle, hs₂.trans hitems, ?_⟩, ?_⟩
    · rw [hd₄.input]
      exact h.quiet hd₄.quiet
    · rw [hd₄.input]
      exact hlt
  -- Back, Call, Edit, Delete, Send number, any other index
  rcases sel with _ | _ | _ | _ | _ | n
  · refine h₀.more hlog (fun e he => Or.inr (Or.inl ⟨list.items, ?_⟩)) rfl
    rw [List.mem_singleton.mp he, VerticalList.closed, htitle]
  · refine wp_seq (showNotice_spec _ w₂) (fun _ _ h => h) ?_
    intro _ w₄ hd₄
    refine stay hd₄ (h₀.call _ ?_)
    rw [hlog, VerticalList.closed, htitle, hitems]
  · have h₂ := chose rfl (by decide) h₀
    exact wp_seq (editContact_promptsOnly ui r w₂) (fun _ _ h => ⟨h.1, h₂.prompts h.2⟩)
      fun _ _ h => h₂.prompts h
  · have h₂ := chose rfl (by decide) h₀
    exact wp_seq (execute_promptsOnly _ _ w₂) (fun _ _ h => ⟨h.1, h₂.prompts h.2⟩)
      fun _ _ h => h₂.prompts h
  · refine wp_seq (showNotice_spec _ w₂) (fun _ _ h => h) ?_
    intro _ w₄ hd₄
    exact stay hd₄ (chose rfl (by decide) h₀)
  · exact stay (Drawn.refl w₂) (chose rfl (by omega) h₀)

end

theorem optionsEntry_screen_or_sql {r : ContactRow} {e : Event} (h : OptionsEntry r e) :
    e.isScreen ∨ ∃ stmt, e = .sql stmt := by
  rcases h with h | ⟨_, rfl⟩ | ⟨_, rfl⟩
  · cases e <;> first | exact Or.inl rfl | exact Or.inr ⟨_, rfl⟩ | cases h
  · exact Or.inl rfl
  · exact Or.inl rfl

/-- Entries that are screens and writes place no call. -/
theorem no_calls {evs : List Event} (h : ∀ e ∈ evs, e.isScreen ∨ ∃ stmt, e = .sql stmt) :
    dialled evs = [] ∧ callsShown evs = [] := by
  have none : ∀ {β : Type} (f : Event → Option β), (∀ e, e.isScreen → f e = none) →
      (∀ stmt, f (.sql stmt) = none) → evs.filterMap f = [] := by
    intro β f hscreen hsql
    rw [List.filterMap_eq_nil_iff]
    intro e he
    rcases h e he with he | ⟨stmt, rfl⟩
    · exact hscreen e he
    · exact hsql stmt
  exact ⟨none _ (fun e he => by cases e <;> first | rfl | cases he) fun _ => rfl,
    none _ (fun e he => by cases e <;> first | rfl | cases he) fun _ => rfl⟩

theorem callsMade_options (ui : Ui) (r : ContactRow) (root : Text) (w : World) :
    CallsMade (optionsAsked r) (PhoneBook.runContactOptions ui r root) w ↔
      choosesCall { title := r.2.name, items := PhoneBook.contactOptions, appId := root }
        (presses w.io.input) = false := by
  set list : VerticalList :=
    { title := r.2.name, items := PhoneBook.contactOptions, appId := root } with hlist
  set chosen := choosesCall list (presses w.io.input) with hchosen
  have hwp : wp (PhoneBook.runContactOptions ui r root) (fun _ w' => Tally r chosen false w w')
      (fun e w' => e = .waiting ∧ Tally r chosen false w w') w :=
    wp_loop (fun list' w' => list'.title = r.2.name ∧ list'.items = PhoneBook.contactOptions ∧
        Tally r chosen (choosesCall list' (presses w'.io.input)) w w')
      ⟨rfl, rfl, [], (List.append_nil _).symm, by simp, rfl⟩
      fun list' w₁ h => contactOptionsBody_tally ui list' h.1 h.2.1 h.2.2
  obtain ⟨hraised, evs, hlog, hevs, hc⟩ :
      raised? (PhoneBook.runContactOptions ui r root) w = none ∧
        Tally r chosen false w (finalState (PhoneBook.runContactOptions ui r root) w) := by
    rcases wp_cases hwp with ⟨_, -, hr, h⟩ | ⟨_, -, hr, rfl, h⟩
    · exact ⟨hr, h⟩
    · exact ⟨hr, h⟩
  obtain ⟨hdialled, hshown⟩ := no_calls fun e he => optionsEntry_screen_or_sql (hevs e he)
  have hnew := newEvents_eq hlog
  rw [callsMade_iff hraised (by rw [hnew, hdialled]) (by rw [hnew, hshown]), hnew, hc]
  simp

/-! ## The PhoneBook app -/

theorem PhoneBook.Change.screen_or_sql {t t' : AutoTable Contact} {l : List Event} {e : Event}
    (h : PhoneBook.Change t l e t') : e.isScreen ∨ ∃ stmt, e = .sql stmt := by
  cases h with
  | screen h => exact Or.inl h
  | add _ _ _ _ => exact Or.inr ⟨_, rfl⟩
  | edit _ _ _ => exact Or.inr ⟨_, rfl⟩
  | erase _ _ _ => exact Or.inr ⟨_, rfl⟩

theorem callsMade_phoneBook (ui : Ui) (w : World) : CallsMade callsAsked (PhoneBook.run ui) w ↔
    callsAsked (newEvents (PhoneBook.run ui) w) = [] := by
  obtain ⟨hraised, hstep⟩ : raised? (PhoneBook.run ui) w = none ∧
      PhoneBook.Step w (finalState (PhoneBook.run ui) w) := by
    rcases wp_cases (PhoneBook.run_spec ui w) with ⟨_, -, hr, h⟩ | ⟨_, -, hr, rfl, h⟩
    · exact ⟨hr, h⟩
    · exact ⟨hr, h⟩
  obtain ⟨⟨evs, hlog, hevs⟩, -⟩ := hstep.history.entries (fun _ => True) _
    (fun _ _ _ _ _ h => ⟨PhoneBook.Change.screen_or_sql h, trivial⟩) trivial
  obtain ⟨hdialled, hshown⟩ := no_calls hevs
  rw [← newEvents_eq hlog] at hdialled hshown
  exact callsMade_iff hraised hdialled hshown

/-! ## Top theorem -/

/-- **A call to a contact is never placed**: the home screen, the options of a contact and the whole
app make the calls asked for exactly when none is asked for. -/
theorem calls_made (ui : Ui) (w : World) :
    (∀ code, code = 103 ∨ code = 108 → w.state = .HOME →
      (CallsMade callsAsked (handleInput ui code) w ↔
        ¬ choosesContact w.db.contacts (presses w.io.input))) ∧
    (∀ r root, CallsMade (callsAskedFrom [] (some r)) (PhoneBook.runContactOptions ui r root) w ↔
      choosesCall { title := r.2.name, items := PhoneBook.contactOptions, appId := root }
        (presses w.io.input) = false) ∧
    (CallsMade callsAsked (PhoneBook.run ui) w ↔
      callsAsked (newEvents (PhoneBook.run ui) w) = []) :=
  ⟨fun _ hcode hstate => callsMade_home ui w hcode hstate, fun r root => callsMade_options ui r root w,
    callsMade_phoneBook ui w⟩

/-- DOWN, then Back: nothing is dialled. -/
theorem calls_made_back :
    CallsMade callsAsked (handleInput Ui.plain 108)
      (World.boot (initDatabases none none none) [.press 1 14]) :=
  ((calls_made Ui.plain _).1 108 (Or.inr rfl) rfl).mpr (by unfold choosesContact; decide +kernel)

/-- DOWN, then OK on the default contact; and in PhoneBook, Search for `n`, the default contact,
Call. -/
theorem calls_made_not :
    let db := initDatabases none none none
    let home := World.boot db [.press 1 28]
    let phoneBook := World.boot db ([28, 49, 28, 28, 28].map (Poll.press 1))
    (callsAsked (newEvents (handleInput Ui.plain 108) home) = ["555-1234".toList] ∧
      ¬ CallsMade callsAsked (handleInput Ui.plain 108) home) ∧
    callsAsked (newEvents (PhoneBook.run Ui.plain) phoneBook) = ["555-1234".toList] ∧
    ¬ CallsMade callsAsked (PhoneBook.run Ui.plain) phoneBook := by
  unfold CallsMade
  decide +kernel

end NeoDCT
